import SocksProxy.Lib.Run
import SocksProxy.Lib.Scan
import SocksProxy.Pop3sniff

/-!
# What the POP3 sniffer detects

`USER ` and `PASS ` are looked for with one counter that starts anew after a
byte that does not match, without a second look at it; the replies with two
counters that never start anew, so that a reply is heard as soon as its letters
have come in order. `sniffer_detects_iff` says for which bytes this detects
what it should.
-/

namespace SocksProxy

open Lib
open scoped List

/-! ## Detection -/

def lower (l : List UInt8) : List UInt8 := l.map tolower

/-- Whatever the case of the letters. -/
def EndsWith (l w : List UInt8) : Prop := lower w <:+ lower l

instance (l w : List UInt8) : Decidable (EndsWith l w) := inferInstanceAs (Decidable (lower w <:+ lower l))

/-- A sniffer, all the bytes fed to it, and those fed since it entered its state. -/
structure Sniffing where
  sniff : Pop3Sniff
  fed : List UInt8
  since : List UInt8

def Sniffing.start (s : Pop3Sniff) : Sniffing := ⟨pop3Init s, [], []⟩

def sniffStep (g : Sniffing) (b : UInt8) : Except Empty Sniffing :=
  let s := pop3Parse g.sniff b
  .ok ⟨s, g.fed ++ [b], if s.state = g.sniff.state then g.since ++ [b] else []⟩

/-- The byte is compared with one of the word or with its terminator. -/
def ComparesInside (s : Pop3Sniff) (w : List UInt8) : Prop := s.read.toNat ≤ w.length

/-- The state changes to `next` exactly when the bytes fed since it was entered end in the word. -/
structure FindsWord (g : Sniffing) (b : UInt8) (w : List UInt8) (next : Pop3State) : Prop where
  found : (pop3Parse g.sniff b).state = next ↔ EndsWith (g.since ++ [b]) w
  inside : ComparesInside g.sniff w

def HearsReply (g : Sniffing) (b : UInt8) (w : List UInt8) (next : Pop3State) : Prop :=
  (pop3Parse g.sniff b).state = next → EndsWith (g.fed ++ [b]) w

structure Detects (g : Sniffing) (b : UInt8) : Prop where
  user : g.sniff.state = .user → FindsWord g b pop3User .readUser
  password : g.sniff.state = .password → FindsWord g b pop3Password .readPassword
  success : g.sniff.state = .check → HearsReply g b pop3Ok .success
  failure : g.sniff.state = .check → HearsReply g b pop3ErrorSniff .user

/-- Both counters say that one letter of the word is missing. -/
structure AwaitsLast (s : Pop3Sniff) (w : List UInt8) : Prop where
  read : s.read.toNat + 1 = w.length
  remaining : s.remaining = 1

/-- A byte that completes the word finds the counters at its last letter. -/
structure KeepsPace (g : Sniffing) (b : UInt8) (w : List UInt8) : Prop where
  last : EndsWith (g.since ++ [b]) w → AwaitsLast g.sniff w
  inside : ComparesInside g.sniff w

/-- When the letters of a reply have come in order, they have come together. -/
def Together (g : Sniffing) (b : UInt8) (w : List UInt8) : Prop :=
  lower w <+ lower (g.since ++ [b]) → EndsWith (g.fed ++ [b]) w

structure Paced (g : Sniffing) (b : UInt8) : Prop where
  user : g.sniff.state = .user → KeepsPace g b pop3User
  password : g.sniff.state = .password → KeepsPace g b pop3Password
  success : g.sniff.state = .check → Together g b pop3Ok
  failure : g.sniff.state = .check → Together g b pop3ErrorSniff

/-! ## A word -/

section
variable {s : Pop3Sniff} {w l : List UInt8} {b : UInt8} {st next : Pop3State}

@[simp] theorem lower_length (l : List UInt8) : (lower l).length = l.length := List.length_map ..

theorem lower_snoc (l : List UInt8) (b : UInt8) : lower (l ++ [b]) = lower l ++ [tolower b] := List.map_append

theorem matchesAt_iff {i : UInt8} (hi : i.toNat < w.length) :
    matchesAt b w i = true ↔ (lower w)[i.toNat]? = some (tolower b) := by
  have hget : (lower w)[i.toNat]? = some (tolower (w.getD i.toNat 0)) := by
    rw [lower, List.getElem?_map, List.getD_eq_getElem?_getD, List.getElem?_eq_getElem hi]
    rfl
  rw [hget, matchesAt, beq_iff_eq, Option.some.injEq]
  exact eq_comm

theorem last_letter {n : UInt8} : n - 1 = 0 ↔ n = 1 := by
  rw [UInt8.sub_eq_iff_eq_add, UInt8.zero_add]

theorem sniffer_next (hne : next ≠ st) :
    (sniffer s b w st next).2 = next ↔ matchesAt b w s.read = true ∧ s.remaining = 1 := by
  unfold sniffer
  by_cases hm : matchesAt b w s.read = true
  · by_cases hlast : s.remaining = 1
    · simp [hm, hlast]
    · simp [hm, hlast, last_letter, hne.symm]
  · rw [if_neg hm]
    have hst : st = next ↔ matchesAt b w s.read = true ∧ s.remaining = 1 := iff_of_false hne.symm fun h => hm h.1
    by_cases hread : s.read = 0
    · rw [if_neg (not_not_intro hread)]
      exact hst
    · rw [if_pos hread]
      exact hst

/-- The counters of a word that is looked for, before its last letter. -/
structure Armed (s : Pop3Sniff) (w l : List UInt8) : Prop where
  count : s.read.toNat + s.remaining.toNat = w.length
  pos : 0 < s.remaining.toNat
  atEnd : AtEnd (lower w) (lower l) s.read.toNat

/-- The counters after a login that failed, until a byte does not match. -/
structure Unarmed (s : Pop3Sniff) (w : List UInt8) : Prop where
  count : (0 - s.remaining).toNat ≤ s.read.toNat
  bound : s.read.toNat ≤ w.length + 1

theorem armed_zero (hread : s.read = 0) (hrem : s.remaining = UInt8.ofNat w.length) (hpos : 0 < w.length)
    (hw : w.length < 256) (l : List UInt8) : Armed s w l := by
  have hlen : s.remaining.toNat = w.length := by
    rw [hrem, UInt8.toNat_ofNat']
    exact Nat.mod_eq_of_lt hw
  refine ⟨?_, by omega, ?_⟩
  · rw [hread, hlen]
    exact Nat.zero_add _
  · rw [hread]
    exact atEnd_zero _ _

theorem armed_last (h : Armed s w l) : s.remaining = 1 ↔ s.read.toNat + 1 = w.length := by
  have hcount := h.count
  rw [← UInt8.toNat_inj]
  change s.remaining.toNat = 1 ↔ _
  omega

theorem armed_lt (h : Armed s w l) : s.read.toNat < w.length := by
  have hcount := h.count
  have hpos := h.pos
  omega

theorem armed_found (h : Armed s w l) (hm : matchesAt b w s.read = true) (hlast : s.remaining = 1) :
    EndsWith (l ++ [b]) w := by
  have hb := (matchesAt_iff (armed_lt h)).mp hm
  have hend := atEnd_next h.atEnd hb
  rw [(armed_last h).mp hlast, ← lower_length w, atEnd_length, ← lower_snoc] at hend
  exact hend

theorem endsWith_last (h : EndsWith (l ++ [b]) w) (hk : s.read.toNat + 1 = w.length) :
    matchesAt b w s.read = true := by
  unfold EndsWith at h
  rw [lower_snoc] at h
  have hlt : s.read.toNat < w.length := by omega
  rw [matchesAt_iff hlt]
  exact suffix_last (by rw [lower_length]; exact hk) h

/-- An armed sniffer never finds what is not there, and finds the word if it keeps pace. -/
theorem armed_iff (h : Armed s w l) (hne : next ≠ st) :
    ((sniffer s b w st next).2 = next ↔ EndsWith (l ++ [b]) w) ↔ (EndsWith (l ++ [b]) w → AwaitsLast s w) := by
  rw [sniffer_next hne]
  constructor
  · intro hiff hend
    obtain ⟨-, hlast⟩ := hiff.mpr hend
    exact ⟨(armed_last h).mp hlast, hlast⟩
  · intro hpace
    constructor
    · intro hfound
      exact armed_found h hfound.1 hfound.2
    · intro hend
      obtain ⟨hread, hlast⟩ := hpace hend
      exact ⟨endsWith_last hend hread, hlast⟩

theorem unarmed_remaining (h : Unarmed s w) (hw : w.length + 1 < 255) : s.remaining ≠ 1 := by
  intro hlast
  have hcount := h.count
  have hbound := h.bound
  rw [hlast] at hcount
  change 255 ≤ _ at hcount
  omega

theorem unarmed_iff (h : Unarmed s w) (hw : w.length + 1 < 255) (hne : next ≠ st) :
    ((sniffer s b w st next).2 = next ↔ EndsWith (l ++ [b]) w) ↔ (EndsWith (l ++ [b]) w → AwaitsLast s w) := by
  rw [sniffer_next hne]
  have hno := unarmed_remaining h hw
  constructor
  · intro hiff hend
    exact absurd (hiff.mpr hend).2 hno
  · intro hpace
    constructor
    · intro hfound
      exact absurd hfound.2 hno
    · intro hend
      exact absurd (hpace hend).remaining hno

theorem counter_succ {n : UInt8} (h : n.toNat < 255) : (n + 1).toNat = n.toNat + 1 := by
  rw [UInt8.toNat_add]
  change (n.toNat + 1) % 256 = _
  omega

theorem counter_pred {n : UInt8} (h : 0 < n.toNat) : (n - 1).toNat = n.toNat - 1 := by
  rw [UInt8.toNat_sub]
  change (256 - 1 + n.toNat) % 256 = _
  have := n.toNat_lt
  omega

theorem sniffer_mismatch (st next : Pop3State) (hm : ¬ matchesAt b w s.read = true) :
    (sniffer s b w st next).2 = st ∧ ((sniffer s b w st next).1 = s ∧ s.read = 0 ∨
      (sniffer s b w st next).1 = { s with read := 0, remaining := UInt8.ofNat w.length }) := by
  unfold sniffer
  rw [if_neg hm]
  by_cases hread : s.read = 0
  · rw [if_neg (not_not_intro hread)]
    exact ⟨rfl, Or.inl ⟨rfl, hread⟩⟩
  · rw [if_pos hread]
    exact ⟨rfl, Or.inr rfl⟩

theorem sniffer_match (hm : matchesAt b w s.read = true) (hlast : s.remaining ≠ 1) :
    sniffer s b w st next = ({ s with read := s.read + 1, remaining := s.remaining - 1 }, st) := by
  unfold sniffer
  rw [if_pos hm, if_neg (fun h => hlast (last_letter.mp h))]

theorem armed_step (h : Armed s w l) (hw : w.length < 256) (b : UInt8) (st next : Pop3State) :
    (sniffer s b w st next).2 = st ∧ Armed (sniffer s b w st next).1 w (l ++ [b]) ∨
      (sniffer s b w st next).2 = next ∧ (sniffer s b w st next).1.read = 0 ∧
        (sniffer s b w st next).1.remaining = 0 := by
  have hlt := armed_lt h
  by_cases hm : matchesAt b w s.read = true
  · by_cases hlast : s.remaining = 1
    · right
      -- the last letter: `remaining` reaches 0 and the word is over
      unfold sniffer
      rw [if_pos hm, if_pos (last_letter.mpr hlast)]
      exact ⟨rfl, rfl, last_letter.mpr hlast⟩
    · left
      rw [sniffer_match hm hlast]
      have hmore : s.read.toNat + 1 ≠ w.length := fun h' => hlast ((armed_last h).mpr h')
      have hread : (s.read + 1).toNat = s.read.toNat + 1 := counter_succ (by omega)
      have hrem := counter_pred h.pos
      have hcount := h.count
      refine ⟨rfl, ?_, ?_, ?_⟩
      · change (s.read + 1).toNat + (s.remaining - 1).toNat = _
        omega
      · change 0 < (s.remaining - 1).toNat
        omega
      · change AtEnd _ _ (s.read + 1).toNat
        rw [hread, lower_snoc]
        exact atEnd_next h.atEnd ((matchesAt_iff hlt).mp hm)
  · left
    -- a letter that does not match leaves the counters or arms them anew
    obtain ⟨hst, hcase⟩ := sniffer_mismatch st next hm
    refine ⟨hst, ?_⟩
    rcases hcase with ⟨hsame, hread⟩ | hreset
    · rw [hsame]
      refine ⟨h.count, h.pos, ?_⟩
      rw [hread]
      exact atEnd_zero _ _
    · rw [hreset]
      exact armed_zero rfl rfl (by omega) hw _

theorem unarmed_step (h : Unarmed s w) (hin : ComparesInside s w) (hw : w.length + 1 < 255) (hpos : 0 < w.length) :
    (sniffer s b w st next).2 = st ∧
      (Armed (sniffer s b w st next).1 w (l ++ [b]) ∨ Unarmed (sniffer s b w st next).1 w) := by
  unfold ComparesInside at hin
  by_cases hm : matchesAt b w s.read = true
  · rw [sniffer_match hm (unarmed_remaining h hw)]
    have hread : (s.read + 1).toNat = s.read.toNat + 1 := counter_succ (by omega)
    have hcount := h.count
    have hneg : 0 - (s.remaining - 1) = (0 - s.remaining) + 1 := by
      rw [UInt8.zero_sub, UInt8.zero_sub, UInt8.neg_sub, UInt8.sub_eq_add_neg, UInt8.add_comm]
    refine ⟨rfl, Or.inr ⟨?_, ?_⟩⟩
    · change (0 - (s.remaining - 1)).toNat ≤ (s.read + 1).toNat
      rw [hneg, counter_succ (by omega), hread]
      omega
    · change (s.read + 1).toNat ≤ _
      omega
  · obtain ⟨hst, hcase⟩ := sniffer_mismatch st next hm
    refine ⟨hst, ?_⟩
    rcases hcase with ⟨hsame, -⟩ | hreset
    · rw [hsame]
      exact Or.inr h
    · rw [hreset]
      exact Or.inl (armed_zero rfl rfl hpos (by omega) _)

/-! ## The replies -/

/-- The count of the letters of a reply that have come in order. -/
structure Heard (w l : List UInt8) (k : UInt8) : Prop where
  bound : k.toNat < w.length
  spread : Spread (lower w) (lower l) k.toNat

theorem heard_zero (hw : w ≠ []) : Heard w [] 0 := by
  refine ⟨List.length_pos_of_ne_nil hw, ?_⟩
  apply spread_nil
  intro h
  exact hw (List.map_eq_nil_iff.mp h)

theorem heard_all {k : UInt8} (h : Heard w l k) (hw : w.length < 256) :
    lower w <+ lower (l ++ [b]) ↔ matchesAt b w k = true ∧ (k + 1).toNat = w.length := by
  have hbound := h.bound
  have hk := counter_succ (n := k) (by omega)
  rw [lower_snoc, hk]
  by_cases hlast : k.toNat + 1 = w.length
  · rw [spread_complete h.spread (by rw [lower_length]; exact hlast), matchesAt_iff hbound]
    exact (and_iff_left hlast).symm
  · refine iff_of_false ?_ fun h' => hlast h'.2
    apply spread_incomplete h.spread
    rw [lower_length]
    omega

theorem heard_next {k : UInt8} (h : Heard w l k) (hw : w.length < 256) (hm : matchesAt b w k = true)
    (hmore : (k + 1).toNat ≠ w.length) : Heard w (l ++ [b]) (k + 1) := by
  have hbound := h.bound
  have hk := counter_succ (n := k) (by omega)
  have hlt : k.toNat + 1 < w.length := by omega
  refine ⟨by omega, ?_⟩
  rw [hk, lower_snoc]
  exact spread_next h.spread ((matchesAt_iff hbound).mp hm) (by rw [lower_length]; exact hlt)

theorem heard_stay {k : UInt8} (h : Heard w l k) (hm : ¬ matchesAt b w k = true) : Heard w (l ++ [b]) k := by
  refine ⟨h.bound, ?_⟩
  rw [lower_snoc]
  apply spread_stay h.spread
  · intro hb
    exact hm ((matchesAt_iff h.bound).mpr hb)
  · rw [lower_length]
    exact h.bound

theorem matchesAt_disjoint {i j : UInt8} (hi : i.toNat < pop3Ok.length) (hj : j.toNat < pop3ErrorSniff.length)
    (hm : matchesAt b pop3Ok i = true) : ¬ matchesAt b pop3ErrorSniff j = true := by
  have hdisjoint : ∀ x ∈ lower pop3Ok, x ∉ lower pop3ErrorSniff := by decide +kernel
  intro hm'
  have hmem := List.mem_of_getElem? ((matchesAt_iff hi).mp hm)
  have hmem' := List.mem_of_getElem? ((matchesAt_iff hj).mp hm')
  exact hdisjoint _ hmem hmem'

structure Counting (s : Pop3Sniff) (l : List UInt8) : Prop where
  remaining : s.remaining = 0
  ok : Heard pop3Ok l s.read
  error : Heard pop3ErrorSniff l s.checkRead

/-- A byte in POP3_CHECK: at most one of the counters moves. -/
theorem check_cases (h : Counting s l) (b : UInt8) :
    (matchesAt b pop3Ok s.read = true ∧ ¬ matchesAt b pop3ErrorSniff s.checkRead = true ∧
        pop3Check s b = ({ s with read := s.read + 1 },
          if (s.read + 1).toNat = pop3Ok.length then .success else .check)) ∨
      (¬ matchesAt b pop3Ok s.read = true ∧ matchesAt b pop3ErrorSniff s.checkRead = true ∧
        pop3Check s b = ({ s with checkRead := s.checkRead + 1 },
          if (s.checkRead + 1).toNat = pop3ErrorSniff.length then .user else .check)) ∨
      (¬ matchesAt b pop3Ok s.read = true ∧ ¬ matchesAt b pop3ErrorSniff s.checkRead = true ∧
        pop3Check s b = (s, .check)) := by
  unfold pop3Check
  by_cases hok : matchesAt b pop3Ok s.read = true
  · left
    rw [if_pos hok]
    exact ⟨hok, matchesAt_disjoint h.ok.bound h.error.bound hok, rfl⟩
  · right
    rw [if_neg hok]
    by_cases herr : matchesAt b pop3ErrorSniff s.checkRead = true
    · left
      rw [if_pos herr]
      exact ⟨hok, herr, rfl⟩
    · right
      rw [if_neg herr]
      exact ⟨hok, herr, rfl⟩

theorem check_success (h : Counting s l) (b : UInt8) :
    (pop3Check s b).2 = .success ↔ lower pop3Ok <+ lower (l ++ [b]) := by
  rw [heard_all h.ok (by decide)]
  rcases check_cases h b with ⟨hok, -, he⟩ | ⟨hno, -, he⟩ | ⟨hno, -, he⟩
  · rw [he, and_iff_right hok]
    simp only
    split
    · rename_i hlast
      exact iff_of_true rfl hlast
    · rename_i hmore
      exact iff_of_false (by decide) hmore
  · rw [he]
    refine iff_of_false ?_ fun h' => hno h'.1
    simp only
    split
    · decide
    · decide
  · rw [he]
    exact iff_of_false (fun h' => by cases h') fun h' => hno h'.1

theorem check_user (h : Counting s l) (b : UInt8) :
    (pop3Check s b).2 = .user ↔ lower pop3ErrorSniff <+ lower (l ++ [b]) := by
  rw [heard_all h.error (by decide)]
  rcases check_cases h b with ⟨-, hno, he⟩ | ⟨-, herr, he⟩ | ⟨-, hno, he⟩
  · rw [he]
    refine iff_of_false ?_ fun h' => hno h'.1
    simp only
    split
    · decide
    · decide
  · rw [he, and_iff_right herr]
    simp only
    split
    · rename_i hlast
      exact iff_of_true rfl hlast
    · rename_i hmore
      exact iff_of_false (by decide) hmore
  · rw [he]
    exact iff_of_false (fun h' => by cases h') fun h' => hno h'.1

/-- The counters stay counters until a reply has been heard; `remaining` is
not set anew when the login has failed. -/
theorem check_step (h : Counting s l) (b : UInt8) :
    ((pop3Check s b).2 = .check ∧ Counting (pop3Check s b).1 (l ++ [b])) ∨
      ((pop3Check s b).2 = .user ∧ Unarmed (pop3Check s b).1 pop3User) ∨ (pop3Check s b).2 = .success := by
  rcases check_cases h b with ⟨hok, hno, he⟩ | ⟨hno, herr, he⟩ | ⟨hno, hno', he⟩
  · rw [he]
    by_cases hlast : (s.read + 1).toNat = pop3Ok.length
    · exact Or.inr (Or.inr (if_pos hlast))
    · left
      exact ⟨if_neg hlast, h.remaining, heard_next h.ok (by decide) hok hlast, heard_stay h.error hno⟩
  · rw [he]
    by_cases hlast : (s.checkRead + 1).toNat = pop3ErrorSniff.length
    · right
      left
      refine ⟨if_pos hlast, ?_, ?_⟩
      · change (0 - s.remaining).toNat ≤ _
        rw [h.remaining]
        exact Nat.zero_le _
      · exact Nat.le_of_lt (Nat.lt_trans h.ok.bound (by decide))
    · left
      exact ⟨if_neg hlast, h.remaining, heard_stay h.ok hno, heard_next h.error (by decide) herr hlast⟩
  · rw [he]
    exact Or.inl ⟨rfl, h.remaining, heard_stay h.ok hno, heard_stay h.error hno'⟩

/-! ## Runs -/

/-- What the counters are in each state. -/
structure Tracks (g : Sniffing) : Prop where
  user : g.sniff.state = .user → Armed g.sniff pop3User g.since ∨ Unarmed g.sniff pop3User
  password : g.sniff.state = .password → Armed g.sniff pop3Password g.since
  readPassword : g.sniff.state = .readPassword → g.sniff.remaining = 0
  check : g.sniff.state = .check → Counting g.sniff g.since

theorem parse_user (h : s.state = .user) (b : UInt8) :
    pop3Parse s b = { (sniffer s b pop3User .user .readUser).1 with
      state := (sniffer s b pop3User .user .readUser).2 } := by
  rw [pop3Parse, h]

theorem parse_password (h : s.state = .password) (b : UInt8) :
    pop3Parse s b = { (sniffer s b pop3Password .password .readPassword).1 with
      state := (sniffer s b pop3Password .password .readPassword).2 } := by
  rw [pop3Parse, h]

theorem parse_check (h : s.state = .check) (b : UInt8) :
    pop3Parse s b = { (pop3Check s b).1 with state := (pop3Check s b).2 } := by
  rw [pop3Parse, h]

theorem findsWord_iff {g : Sniffing} (hparse : (pop3Parse g.sniff b).state = (sniffer g.sniff b w st next).2)
    (h : ((sniffer g.sniff b w st next).2 = next ↔ EndsWith (g.since ++ [b]) w) ↔
      (EndsWith (g.since ++ [b]) w → AwaitsLast g.sniff w)) : FindsWord g b w next ↔ KeepsPace g b w := by
  constructor
  · intro hfinds
    refine ⟨h.mp ?_, hfinds.inside⟩
    rw [← hparse]
    exact hfinds.found
  · intro hpace
    refine ⟨?_, hpace.inside⟩
    rw [hparse]
    exact h.mpr hpace.last

theorem hearsReply_iff {g : Sniffing} (h : (pop3Parse g.sniff b).state = next ↔ lower w <+ lower (g.since ++ [b])) :
    HearsReply g b w next ↔ Together g b w := imp_congr_left h

/-- A byte is handled as it should be exactly if it meets the condition. -/
theorem detects_iff {g : Sniffing} (h : Tracks g) (b : UInt8) : Detects g b ↔ Paced g b := by
  have huser : g.sniff.state = .user → (FindsWord g b pop3User .readUser ↔ KeepsPace g b pop3User) := by
    intro hst
    apply findsWord_iff (congrArg Pop3Sniff.state (parse_user hst b))
    rcases h.user hst with harmed | hunarmed
    · exact armed_iff harmed (by decide)
    · exact unarmed_iff hunarmed (by decide) (by decide)
  have hpassword : g.sniff.state = .password →
      (FindsWord g b pop3Password .readPassword ↔ KeepsPace g b pop3Password) := by
    intro hst
    apply findsWord_iff (congrArg Pop3Sniff.state (parse_password hst b))
    exact armed_iff (h.password hst) (by decide)
  have hsuccess : g.sniff.state = .check → (HearsReply g b pop3Ok .success ↔ Together g b pop3Ok) := by
    intro hst
    apply hearsReply_iff
    rw [parse_check hst]
    exact check_success (h.check hst) b
  have hfailure : g.sniff.state = .check → (HearsReply g b pop3ErrorSniff .user ↔ Together g b pop3ErrorSniff) := by
    intro hst
    apply hearsReply_iff
    rw [parse_check hst]
    exact check_user (h.check hst) b
  constructor
  · intro hd
    exact ⟨fun hst => (huser hst).mp (hd.user hst), fun hst => (hpassword hst).mp (hd.password hst),
      fun hst => (hsuccess hst).mp (hd.success hst), fun hst => (hfailure hst).mp (hd.failure hst)⟩
  · intro hi
    exact ⟨fun hst => (huser hst).mpr (hi.user hst), fun hst => (hpassword hst).mpr (hi.password hst),
      fun hst => (hsuccess hst).mpr (hi.success hst), fun hst => (hfailure hst).mpr (hi.failure hst)⟩

section
variable {f : List UInt8}

theorem tracks_elsewhere (hst : s.state = st) (hno : st ∉ [.user, .password, .readPassword, .check]) :
    Tracks ⟨s, f, l⟩ := by
  simp only [List.mem_cons, List.not_mem_nil, or_false, not_or] at hno
  obtain ⟨hu, hp, hr, hc⟩ := hno
  exact ⟨fun h => absurd (hst.symm.trans h) hu, fun h => absurd (hst.symm.trans h) hp,
    fun h => absurd (hst.symm.trans h) hr, fun h => absurd (hst.symm.trans h) hc⟩

theorem tracks_user (hst : s.state = .user) (h : Armed s pop3User l ∨ Unarmed s pop3User) : Tracks ⟨s, f, l⟩ :=
  ⟨fun _ => h, fun h' => (by cases hst.symm.trans h'), fun h' => (by cases hst.symm.trans h'),
    fun h' => (by cases hst.symm.trans h')⟩

theorem tracks_password (hst : s.state = .password) (h : Armed s pop3Password l) : Tracks ⟨s, f, l⟩ :=
  ⟨fun h' => (by cases hst.symm.trans h'), fun _ => h, fun h' => (by cases hst.symm.trans h'),
    fun h' => (by cases hst.symm.trans h')⟩

theorem tracks_readPassword (hst : s.state = .readPassword) (h : s.remaining = 0) : Tracks ⟨s, f, l⟩ :=
  ⟨fun h' => (by cases hst.symm.trans h'), fun h' => (by cases hst.symm.trans h'), fun _ => h,
    fun h' => (by cases hst.symm.trans h')⟩

theorem tracks_check (hst : s.state = .check) (h : Counting s l) : Tracks ⟨s, f, l⟩ :=
  ⟨fun h' => (by cases hst.symm.trans h'), fun h' => (by cases hst.symm.trans h'),
    fun h' => (by cases hst.symm.trans h'), fun _ => h⟩

end

theorem initialMsg_user (h : (initialMsg s b).2 = .user) :
    (initialMsg s b).1.read = 0 ∧ (initialMsg s b).1.remaining = UInt8.ofNat pop3User.length := by
  unfold initialMsg at h ⊢
  by_cases hm : matchesAt b pop3Ok s.read = true
  · by_cases hlast : s.remaining - 1 = 0
    · rw [if_pos hm, if_pos hlast]
      exact ⟨rfl, rfl⟩
    · simp only [if_pos hm, if_neg hlast] at h
      cases h
  · simp only [if_neg hm] at h
    cases h

theorem initialMsg_states (s : Pop3Sniff) (b : UInt8) :
    (initialMsg s b).2 = .initial ∨ (initialMsg s b).2 = .user ∨ (initialMsg s b).2 = .done := by
  unfold initialMsg
  split
  · split
    · exact Or.inr (Or.inl rfl)
    · exact Or.inl rfl
  · exact Or.inr (Or.inr rfl)

theorem readUser_states (s : Pop3Sniff) (b : UInt8) :
    (readUser s b).2 = .readUser ∨ (readUser s b).2 = .password ∧ (readUser s b).1.read = 0 ∧
      (readUser s b).1.remaining = UInt8.ofNat pop3Password.length := by
  unfold readUser
  split
  · split
    · exact Or.inl rfl
    · exact Or.inl rfl
  · exact Or.inr ⟨rfl, rfl, rfl⟩

theorem storePassword_remaining (s : Pop3Sniff) (i : Nat) (b : UInt8) :
    (storePassword s i b).remaining = s.remaining := by
  unfold storePassword
  split
  · rfl
  · rfl

theorem readPassword_states (s : Pop3Sniff) (b : UInt8) :
    (readPassword s b).1.remaining = s.remaining ∧ ((readPassword s b).2 = .readPassword ∨
      (readPassword s b).2 = .check ∧ (readPassword s b).1.read = 0 ∧ (readPassword s b).1.checkRead = 0) := by
  unfold readPassword
  split
  · split
    · exact ⟨storePassword_remaining _ _ _, Or.inl rfl⟩
    · exact ⟨rfl, Or.inl rfl⟩
  · exact ⟨storePassword_remaining _ _ _, Or.inr ⟨rfl, rfl, rfl⟩⟩

theorem armed_state (h : Armed s w l) (st : Pop3State) : Armed { s with state := st } w l :=
  ⟨h.count, h.pos, h.atEnd⟩

theorem unarmed_state (h : Unarmed s w) (st : Pop3State) : Unarmed { s with state := st } w := ⟨h.count, h.bound⟩

theorem counting_state (h : Counting s l) (st : Pop3State) : Counting { s with state := st } l :=
  ⟨h.remaining, h.ok, h.error⟩

variable {f : List UInt8}

/-- What holds of the sniffer after a byte, by the function that has handled it. -/
theorem sniffStep_after {P : Sniffing → Prop} {g g' : Sniffing} {r : Pop3Sniff × Pop3State}
    (hr : pop3Parse g.sniff b = { r.1 with state := r.2 }) (hstep : sniffStep g b = .ok g')
    (h : P ⟨{ r.1 with state := r.2 }, g.fed ++ [b], if r.2 = g.sniff.state then g.since ++ [b] else []⟩) :
    P g' := by
  simp only [sniffStep, hr, Except.ok.injEq] at hstep
  rw [← hstep]
  exact h

theorem tracks_word (h : Armed s pop3User l ∨ Unarmed s pop3User) (hin : ComparesInside s pop3User) :
    Tracks ⟨{ (sniffer s b pop3User .user .readUser).1 with state := (sniffer s b pop3User .user .readUser).2 }, f,
      if (sniffer s b pop3User .user .readUser).2 = .user then l ++ [b] else []⟩ := by
  have hcase : ((sniffer s b pop3User .user .readUser).2 = .user ∧
      (Armed (sniffer s b pop3User .user .readUser).1 pop3User (l ++ [b]) ∨
        Unarmed (sniffer s b pop3User .user .readUser).1 pop3User)) ∨
      (sniffer s b pop3User .user .readUser).2 = .readUser := by
    rcases h with harmed | hunarmed
    · rcases armed_step harmed (by decide) b .user .readUser with ⟨hst, hstill⟩ | ⟨hnext, -⟩
      · exact Or.inl ⟨hst, Or.inl hstill⟩
      · exact Or.inr hnext
    · exact Or.inl (unarmed_step hunarmed hin (by decide) (by decide))
  rcases hcase with ⟨hst, hstill⟩ | hnext
  · rw [if_pos hst]
    apply tracks_user hst
    rcases hstill with harmed | hunarmed
    · exact Or.inl (armed_state harmed _)
    · exact Or.inr (unarmed_state hunarmed _)
  · exact tracks_elsewhere hnext (by decide)

theorem tracks_step {g g' : Sniffing} (h : Tracks g) (hi : Paced g b) (hstep : sniffStep g b = .ok g') :
    Tracks g' := by
  cases hst : g.sniff.state with
  | initial =>
    apply sniffStep_after (r := initialMsg g.sniff b) (by rw [pop3Parse, hst]) hstep
    rcases initialMsg_states g.sniff b with hnext | hnext | hnext
    · exact tracks_elsewhere hnext (by decide)
    · obtain ⟨hread, hrem⟩ := initialMsg_user hnext
      exact tracks_user hnext (Or.inl (armed_state (armed_zero hread hrem (by decide) (by decide) _) _))
    · exact tracks_elsewhere hnext (by decide)
  | user =>
    apply sniffStep_after (parse_user hst b) hstep
    rw [hst]
    -- a session that comes back from the check is unarmed here until the first mismatch
    exact tracks_word (h.user hst) (hi.user hst).inside
  | readUser =>
    apply sniffStep_after (r := readUser g.sniff b) (by rw [pop3Parse, hst]) hstep
    rcases readUser_states g.sniff b with hnext | ⟨hnext, hread, hrem⟩
    · exact tracks_elsewhere hnext (by decide)
    · exact tracks_password hnext (armed_state (armed_zero hread hrem (by decide) (by decide) _) _)
  | password =>
    apply sniffStep_after (parse_password hst b) hstep
    rcases armed_step (h.password hst) (by decide) b .password .readPassword with ⟨hnext, hstill⟩ | ⟨hnext, -, hrem⟩
    · rw [hst, if_pos hnext]
      exact tracks_password hnext (armed_state hstill _)
    · exact tracks_readPassword hnext hrem
  | readPassword =>
    apply sniffStep_after (r := readPassword g.sniff b) (by rw [pop3Parse, hst]) hstep
    obtain ⟨hrem, hcase⟩ := readPassword_states g.sniff b
    -- reading the password leaves `remaining` at the 0 that its word has left
    rw [h.readPassword hst] at hrem
    rcases hcase with hnext | ⟨hnext, hread, hcheck⟩
    · exact tracks_readPassword hnext hrem
    · rw [hst, hnext]
      refine tracks_check rfl ⟨hrem, ?_, ?_⟩
      · change Heard pop3Ok [] (readPassword g.sniff b).1.read
        rw [hread]
        exact heard_zero (by decide)
      · change Heard pop3ErrorSniff [] (readPassword g.sniff b).1.checkRead
        rw [hcheck]
        exact heard_zero (by decide)
  | check =>
    apply sniffStep_after (parse_check hst b) hstep
    rcases check_step (h.check hst) b with ⟨hnext, hstill⟩ | ⟨hnext, hunarmed⟩ | hnext
    · rw [hst, if_pos hnext]
      exact tracks_check hnext (counting_state hstill _)
    · exact tracks_user hnext (Or.inr (unarmed_state hunarmed _))
    · exact tracks_elsewhere hnext (by decide)
  | _ =>
    apply sniffStep_after (r := (g.sniff, g.sniff.state)) (by rw [pop3Parse, hst]) hstep
    exact tracks_elsewhere hst (by simp)

end

/-- The sniffer detects the words and the replies of a stream exactly as far as
the counters keep pace with the words, and the letters of a reply come together
if they come in order. -/
theorem sniffer_detects_iff (s : Pop3Sniff) (l : List UInt8) :
    Along sniffStep Detects (Sniffing.start s) l ↔ Along sniffStep Paced (Sniffing.start s) l := by
  apply along_iff (J := Tracks)
  · intro g b h
    exact detects_iff h b
  · intro g b g' h hi hstep
    exact tracks_step h hi hstep
  · have hst : (pop3Init s).state = .initial := rfl
    exact tracks_elsewhere hst (by decide)

/-- `"+OKUSER a\nPASS b\n-ERR"`. -/
def failedLogin : List UInt8 :=
  pop3Ok ++ pop3User ++ [0x61, 0x0A] ++ pop3Password ++ [0x62, 0x0A] ++ pop3ErrorSniff

def afterLogin : Sniffing := final sniffStep (Sniffing.start Pop3Sniff.fill) (failedLogin ++ pop3User.dropLast)

/-- The second attempt is not detected: `remaining` counts down from 0. -/
theorem sniffer_misses : ¬ Along sniffStep Detects (Sniffing.start Pop3Sniff.fill) (failedLogin ++ pop3User) := by
  intro h
  have hr : run sniffStep (Sniffing.start Pop3Sniff.fill) (failedLogin ++ pop3User.dropLast) = .ok afterLogin :=
    run_final (by decide +kernel)
  have hlast : failedLogin ++ pop3User = failedLogin ++ pop3User.dropLast ++ [0x20] := rfl
  rw [hlast] at h
  have hfound := ((along_last h hr).user (by decide +kernel)).found.mpr (by decide +kernel)
  exact absurd hfound (by decide +kernel)

end SocksProxy
