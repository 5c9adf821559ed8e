import SocksProxy.Lib.Recognise
import SocksProxy.Parser.AuthParser

/-!
# The messages of the login

The authentication parser, fed until it is done, recognises the messages that
carry a name and a password, and tells the two errors apart.
-/

namespace SocksProxy

open Lib

def authMessages : Set (List UInt8) := fun l => ∃ uname passwd, l = authMessage uname passwd

theorem authRead_goesOn {l : List UInt8} {p : AuthParser} (h : AuthRead l p) (hs : authStops p = false) :
    GoesOn authMessages l := by
  cases hst : p.state with
  | version =>
    simp only [AuthRead, hst] at h
    rw [h.1]
    exact ⟨0x01, _, oneOctet, oneOctet, rfl⟩
  | ulen =>
    simp only [AuthRead, hst] at h
    rw [h.1]
    exact ⟨oneOctet.len, _, oneOctet, oneOctet, rfl⟩
  | uname =>
    simp only [AuthRead, hst] at h
    obtain ⟨n, u, rfl, hp, _⟩ := h
    obtain ⟨m, c, r, hm, rfl⟩ := namePart_extends hp
    exact ⟨c, r ++ oneOctet.len :: oneOctet.1, m, oneOctet, by simp [authMessage, hm]⟩
  | plen =>
    simp only [AuthRead, hst] at h
    obtain ⟨uname, rfl, _⟩ := h
    exact ⟨oneOctet.len, oneOctet.1, uname, oneOctet, rfl⟩
  | passwd =>
    simp only [AuthRead, hst] at h
    obtain ⟨uname, n, v, rfl, hp, _⟩ := h
    obtain ⟨m, c, r, hm, rfl⟩ := namePart_extends hp
    exact ⟨c, r, uname, m, by simp [authMessage, hm]⟩
  | _ => simp [authStops, authIsDone, hst] at hs

theorem authMessages_prefixFree {w r : List UInt8} (hw : w ∈ authMessages) (hr : w ++ r ∈ authMessages) :
    r = [] := by
  obtain ⟨uname, passwd, rfl⟩ := hw
  obtain ⟨uname', passwd', he⟩ := hr
  rw [← List.append_nil (authMessage uname' passwd')] at he
  exact (authMessage_unique he).2.2

def isAuthDone (p : AuthParser) : Bool := decide (p.state = .done)

theorem isAuthDone_iff (p : AuthParser) : isAuthDone p = true ↔ p.state = .done := decide_eq_true_iff

theorem authRead_stopsAt {l : List UInt8} (h : StopsAt authParserFeed authStops authParserInit l) :
    AuthRead l (feedAll authParserFeed authParserInit l) ∧
      authStops (feedAll authParserFeed authParserInit l) = true := by
  obtain ⟨u, c, rfl, hu, hd⟩ := h
  exact ⟨(authRead_undone hu c).2, hd⟩

theorem authParser_recognises : Recognises authParserFeed authStops isAuthDone authParserInit authMessages where
  start := rfl
  prefixFree := authMessages_prefixFree
  waits := by
    intro l hu
    exact authRead_goesOn (authRead_undone hu 0).1 (undone_not_done rfl hu)
  accepts := by
    intro l hs hok
    rw [isAuthDone_iff] at hok
    have hread := (authRead_stopsAt hs).1
    simp only [AuthRead, hok] at hread
    obtain ⟨uname, passwd, hl, _⟩ := hread
    exact ⟨uname, passwd, hl⟩
  rejects := by
    intro l hs hok s hw
    obtain ⟨u, c, rfl, hu, hd⟩ := hs
    obtain ⟨uname, passwd, hw⟩ := hw
    rcases authFeed_done hu hd with ⟨_, _, _, hst, _⟩ | ⟨_, hno⟩
    · rw [← isAuthDone_iff, hok] at hst
      cases hst
    · exact hno uname passwd s [] (by rw [List.append_nil]; exact hw)

/-! ## The errors -/

/-- The bytes up to a length octet of zero. -/
inductive ZeroLength : List UInt8 → Prop
  | uname : ZeroLength [0x01, 0x00]
  | passwd (uname : Name) : ZeroLength (0x01 :: uname.len :: (uname.1 ++ [0x00]))

theorem zeroLength_strays {l : List UInt8} (h : ZeroLength l) : Strays authMessages l := by
  cases h with
  | uname =>
    refine ⟨[0x01], 0x00, rfl, ⟨oneOctet.len, _, oneOctet, oneOctet, rfl⟩, ?_⟩
    rintro s ⟨uname, passwd, he⟩
    simp only [authMessage, List.cons_append, List.cons.injEq] at he
    exact name_len_ne uname he.2.1.symm
  | passwd uname =>
    refine ⟨0x01 :: uname.len :: uname.1, 0x00, rfl, ⟨oneOctet.len, oneOctet.1, uname, oneOctet, rfl⟩, ?_⟩
    rintro s ⟨uname', passwd, he⟩
    simp only [authMessage, List.cons_append, List.cons.injEq, List.append_assoc] at he
    obtain ⟨-, hlen, he⟩ := he
    obtain ⟨-, he⟩ := name_append_inj hlen he
    simp only [List.nil_append, List.cons.injEq] at he
    exact name_len_ne passwd he.1.symm

theorem otherVersion_strays {c : UInt8} (h : c ≠ 0x01) : Strays authMessages [c] := by
  refine ⟨[], c, rfl, ⟨0x01, _, oneOctet, oneOctet, rfl⟩, ?_⟩
  rintro s ⟨uname, passwd, he⟩
  exact h (List.cons.inj he).1

/-- A parser that stops in error has met one of the two. -/
theorem authRead_error {l : List UInt8} {p : AuthParser} (h : AuthRead l p) (hs : authStops p = true)
    (hno : isAuthDone p = false) :
    (p.state = .error ∧ ZeroLength l) ∨ (p.state = .errorUnsupportedVersion ∧ ∃ c, c ≠ 0x01 ∧ l = [c]) := by
  cases hst : p.state with
  | done => simp [isAuthDone, hst] at hno
  | error =>
    simp only [AuthRead, hst] at h
    rcases h with rfl | ⟨uname, rfl⟩
    · exact Or.inl ⟨rfl, .uname⟩
    · exact Or.inl ⟨rfl, .passwd uname⟩
  | errorUnsupportedVersion =>
    simp only [AuthRead, hst] at h
    exact Or.inr ⟨rfl, h⟩
  | _ => simp [authStops, authIsDone, hst] at hs

theorem zeroLength_length {l : List UInt8} (h : ZeroLength l) (c : UInt8) : l ≠ [c] := by
  cases h with
  | uname => simp
  | passwd uname => simp

theorem authFeed_zeroLength {l : List UInt8} (h : ZeroLength l) :
    StopsAt authParserFeed authStops authParserInit l ∧
      (feedAll authParserFeed authParserInit l).state = .error := by
  obtain ⟨hs, hno⟩ := (stopsAt_stray_iff authParser_recognises l).mpr (zeroLength_strays h)
  obtain ⟨hread, hstop⟩ := authRead_stopsAt hs
  rcases authRead_error hread hstop hno with ⟨he, _⟩ | ⟨_, c, _, hl⟩
  · exact ⟨hs, he⟩
  · exact absurd hl (zeroLength_length h c)

theorem authFeed_otherVersion {c : UInt8} (h : c ≠ 0x01) :
    StopsAt authParserFeed authStops authParserInit [c] ∧
      (feedAll authParserFeed authParserInit [c]).state = .errorUnsupportedVersion := by
  obtain ⟨hs, hno⟩ := (stopsAt_stray_iff authParser_recognises [c]).mpr (otherVersion_strays h)
  obtain ⟨hread, hstop⟩ := authRead_stopsAt hs
  rcases authRead_error hread hstop hno with ⟨_, hz⟩ | ⟨he, _⟩
  · exact absurd rfl (zeroLength_length hz c)
  · exact ⟨hs, he⟩

/-! ## The verdict -/

theorem authFeed_word (uname passwd : Name) :
    StopsAt authParserFeed authStops authParserInit (authMessage uname passwd) ∧
      (feedAll authParserFeed authParserInit (authMessage uname passwd)).state = .done ∧
      (feedAll authParserFeed authParserInit (authMessage uname passwd)).credentials =
      credentialsOf uname passwd := by
  obtain ⟨hs, hok⟩ := word_stopsAt authParser_recognises ⟨uname, passwd, rfl⟩
  rw [isAuthDone_iff] at hok
  have hread := (authRead_stopsAt hs).1
  simp only [AuthRead, hok] at hread
  obtain ⟨uname', passwd', he, hf⟩ := hread
  rw [← List.append_nil (authMessage uname passwd), ← List.append_nil (authMessage uname' passwd')] at he
  obtain ⟨rfl, rfl, _⟩ := authMessage_unique he
  exact ⟨hs, hok, hf⟩

/-- Fed `l` until it is done, the parser has come to `q` with `rest` left over:
it is done exactly when it has read a message, and holds its name and password;
it refuses the version exactly on a first byte other than 01, is in error
exactly on a length octet of zero, and waits exactly where a message goes on. -/
structure ReadsLogin (l : List UInt8) (q : AuthParser) (rest : List UInt8) : Prop where
  done : q.state = .done ↔ ∃ uname passwd, l = authMessage uname passwd ++ rest
  stored : ∀ uname passwd r, l = authMessage uname passwd ++ r → rest = r ∧
    HoldsName q.credentials.ulen q.credentials.uname uname ∧
      HoldsName q.credentials.plen q.credentials.passwd passwd
  version : q.state = .errorUnsupportedVersion ↔ ∃ c r, c ≠ 0x01 ∧ l = c :: r
  zeroLength : q.state = .error ↔ ∃ z r, ZeroLength z ∧ l = z ++ r
  waits : authStops q = false ↔ GoesOn authMessages l

theorem authParser_verdict (l : List UInt8) :
    ReadsLogin l (feedUntil authParserFeed authStops authParserInit l).1
      (feedUntil authParserFeed authStops authParserInit l).2 := by
  generalize hq : (feedUntil authParserFeed authStops authParserInit l).1 = q
  generalize hrest : (feedUntil authParserFeed authStops authParserInit l).2 = rest
  -- a message that stops the parser decides its state and what is left over
  have hfed : ∀ w r, StopsAt authParserFeed authStops authParserInit w → l = w ++ r →
      q = feedAll authParserFeed authParserInit w ∧ rest = r := by
    intro w r hs hl
    have he := stopsAt_feedUntil hs r
    rw [← hl] at he
    rw [← hq, ← hrest, he]
    exact ⟨rfl, rfl⟩
  -- and a parser that has stopped has read such a message
  have hstopped : authStops q = true → ∃ w, l = w ++ rest ∧ AuthRead w q := by
    intro hd
    rw [← hq] at hd
    obtain ⟨w, hl, hs, he⟩ := feedUntil_stopped rfl hd
    rw [hrest] at hl
    rw [← hq, he]
    exact ⟨w, hl, (authRead_stopsAt hs).1⟩
  refine ⟨⟨?_, ?_⟩, ?_, ⟨?_, ?_⟩, ⟨?_, ?_⟩, by rw [← hq]; exact feedUntil_waits_iff authParser_recognises l⟩
  · intro hst
    obtain ⟨w, hl, hread⟩ := hstopped (by rw [authStops, hst]; rfl)
    simp only [AuthRead, hst] at hread
    obtain ⟨uname, passwd, rfl, _⟩ := hread
    exact ⟨uname, passwd, hl⟩
  · rintro ⟨uname, passwd, hl⟩
    obtain ⟨hs, hdone, _⟩ := authFeed_word uname passwd
    rw [(hfed _ _ hs hl).1]
    exact hdone
  · intro uname passwd r hl
    obtain ⟨hs, _, hf⟩ := authFeed_word uname passwd
    obtain ⟨hq, hr⟩ := hfed _ _ hs hl
    rw [hq, hf]
    exact ⟨hr, holdsName_nameField uname, holdsName_nameField passwd⟩
  · intro hst
    obtain ⟨w, hl, hread⟩ := hstopped (by rw [authStops, hst]; rfl)
    simp only [AuthRead, hst] at hread
    obtain ⟨c, hc, rfl⟩ := hread
    exact ⟨c, rest, hc, hl⟩
  · rintro ⟨c, r, hc, hl⟩
    obtain ⟨hs, hst⟩ := authFeed_otherVersion hc
    rw [(hfed [c] r hs hl).1]
    exact hst
  · intro hst
    have hstop : authStops q = true := by rw [authStops, hst]; rfl
    obtain ⟨w, hl, hread⟩ := hstopped hstop
    rcases authRead_error hread hstop (by simp [isAuthDone, hst]) with ⟨_, hz⟩ | ⟨hv, _⟩
    · exact ⟨w, rest, hz, hl⟩
    · rw [hst] at hv
      cases hv
  · rintro ⟨z, r, hz, hl⟩
    obtain ⟨hs, hst⟩ := authFeed_zeroLength hz
    rw [(hfed z r hs hl).1]
    exact hst

end SocksProxy
