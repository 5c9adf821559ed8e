import SocksProxy.Lib.Recognise
import SocksProxy.Parser.PrawtosParser

/-!
# The messages of the management protocol

The command parser recognises the messages: it is done at the last byte of one,
in error at the first byte that none has at its position, and waits otherwise.
-/

namespace SocksProxy

open Lib

inductive Message where
  | command (cmd : Command)
  | sniff (cmd : UInt8) (h : cmd < 2)
  | quit

def Message.encode : Message → List UInt8
  | .command cmd => cmd.encode
  | .sniff cmd _ => [0x02, cmd]
  | .quit => quitMessage

def messages : Set (List UInt8) := fun l => ∃ m : Message, l = m.encode

/-- What a parser has stored of a message. -/
def Message.Stored (p : PrawtosParser) : Message → Prop
  | .command (.get cmd _) => p.type = 0x00 ∧ p.get = cmd
  | .command (.create admin uname passwd) =>
    p.type = 0x01 ∧ p.user.cmd = 0x00 ∧ p.user.admin = adminOctet admin ∧
      HoldsName p.credentials.ulen p.credentials.uname uname ∧
      HoldsName p.credentials.plen p.credentials.passwd passwd
  | .command (.delete uname) =>
    p.type = 0x01 ∧ p.user.cmd = 0x01 ∧ HoldsName p.credentials.ulen p.credentials.uname uname
  | .command (.edit uname passwd) =>
    p.type = 0x01 ∧ p.user.cmd = 0x02 ∧
      HoldsName p.credentials.ulen p.credentials.uname uname ∧
      HoldsName p.credentials.plen p.credentials.passwd passwd
  | .sniff cmd _ => p.type = 0x02 ∧ p.get = cmd
  | .quit => p.type = 0x03

/-! ## Stored fields -/

theorem stored_command {p : PrawtosParser} {cmd : Command} (h : cmd.Parsed p) : (Message.command cmd).Stored p := by
  cases cmd with
  | get cmd hcmd => exact h
  | create admin uname passwd =>
    obtain ⟨ht, hu, hf⟩ := h
    refine ⟨ht, by rw [hu], by rw [hu], ?_, ?_⟩
    · rw [hf]; exact holdsName_nameField uname
    · rw [hf]; exact holdsName_nameField passwd
  | delete uname =>
    obtain ⟨ht, hu, hf⟩ := h
    refine ⟨ht, hu, ?_⟩
    rw [hf]; exact holdsName_nameField uname
  | edit uname passwd =>
    obtain ⟨ht, hu, hf⟩ := h
    refine ⟨ht, hu, ?_, ?_⟩
    · rw [hf]; exact holdsName_nameField uname
    · rw [hf]; exact holdsName_nameField passwd

/-! ## Where messages go on -/

theorem userHead_goesOn {h : List UInt8} {user : UserSt} (hh : UserHead h user) (uname : Name) :
    (user.cmd = 0x01 ∧ h ++ uname.len :: uname.1 ∈ messages) ∨
      (user.cmd ≠ 0x01 ∧ ∀ passwd : Name, h ++ uname.len :: (uname.1 ++ passwd.len :: passwd.1) ∈ messages) := by
  cases hh with
  | create admin =>
    exact Or.inr ⟨(by decide : (0x00 : UInt8) ≠ 0x01), fun passwd => ⟨.command (.create admin uname passwd), rfl⟩⟩
  | delete => exact Or.inl ⟨rfl, .command (.delete uname), rfl⟩
  | edit => exact Or.inr ⟨by decide, fun passwd => ⟨.command (.edit uname passwd), rfl⟩⟩

theorem userHead_name_goesOn {h : List UInt8} {user : UserSt} (hh : UserHead h user) (uname : Name) (t : List UInt8)
    {c : UInt8} {r : List UInt8} (ht : uname.len :: uname.1 = t ++ c :: r) : GoesOn messages (h ++ t) := by
  rcases userHead_goesOn hh uname with ⟨_, hw⟩ | ⟨_, hw⟩
  · refine ⟨c, r, ?_⟩
    rwa [ht, ← List.append_assoc] at hw
  · refine ⟨c, r ++ oneOctet.len :: oneOctet.1, ?_⟩
    have hw := hw oneOctet
    rw [← List.cons_append, ht] at hw
    simpa using hw

theorem commandRead_goesOn {l : List UInt8} {p : PrawtosParser} (h : CommandRead l p)
    (hs : prawtosStops p = false) :
    GoesOn messages l := by
  cases hst : p.state with
  | type =>
    simp only [CommandRead, hst] at h
    rw [h.1]
    exact ⟨0x03, [], .quit, rfl⟩
  | cmdGet =>
    simp only [CommandRead, hst] at h
    rw [h.1]
    exact ⟨0x00, [], .command (.get 0 (by decide)), rfl⟩
  | cmdUser =>
    simp only [CommandRead, hst] at h
    rw [h.1]
    exact ⟨0x01, _, .command (.delete oneOctet), rfl⟩
  | cmdSniff =>
    simp only [CommandRead, hst] at h
    rw [h.1]
    exact ⟨0x00, [], .sniff 0 (by decide), rfl⟩
  | admin =>
    simp only [CommandRead, hst] at h
    rw [h.1]
    exact ⟨0x00, _, .command (.create false oneOctet oneOctet), rfl⟩
  | ulen =>
    simp only [CommandRead, hst] at h
    have hg := userHead_name_goesOn h.1 oneOctet [] rfl
    rwa [List.append_nil] at hg
  | uname =>
    simp only [CommandRead, hst] at h
    obtain ⟨hd, n, u, rfl, hh, _, hp, _⟩ := h
    obtain ⟨m, c, r, hm, rfl⟩ := namePart_extends hp
    exact userHead_name_goesOn hh m _ (by rw [hm]; rfl)
  -- a DELETE has ended before its password, so both others have a continuation
  | plen =>
    simp only [CommandRead, hst] at h
    obtain ⟨hd, uname, rfl, hh, _, h1, _⟩ := h
    rcases userHead_goesOn hh uname with ⟨hcmd, _⟩ | ⟨_, hw⟩
    · exact absurd hcmd h1
    · exact ⟨oneOctet.len, oneOctet.1, by simpa using hw oneOctet⟩
  | passwd =>
    simp only [CommandRead, hst] at h
    obtain ⟨hd, uname, n, v, rfl, hh, _, h1, hp, _⟩ := h
    obtain ⟨m, c, r, hm, rfl⟩ := namePart_extends hp
    rcases userHead_goesOn hh uname with ⟨hcmd, _⟩ | ⟨_, hw⟩
    · exact absurd hcmd h1
    · exact ⟨c, r, by simpa [hm] using hw m⟩
  | _ => simp [prawtosStops, prawtosIsDone, hst] at hs

/-! ## Recognition -/

theorem messages_prefixFree {w r : List UInt8} (hw : w ∈ messages) (hr : w ++ r ∈ messages) : r = [] := by
  obtain ⟨m, rfl⟩ := hw
  obtain ⟨m', he⟩ := hr
  cases m with
  | command cmd =>
    cases m' with
    | command cmd' =>
      rw [← List.append_nil (Message.encode (.command cmd'))] at he
      exact (encode_unique he).2
    | sniff c h =>
      have hhead := encode_head cmd r
      rw [show cmd.encode ++ r = [0x02, c] from he] at hhead
      simp at hhead
    | quit =>
      have hhead := encode_head cmd r
      rw [show cmd.encode ++ r = [0x03] from he] at hhead
      simp at hhead
  | sniff c h =>
    cases m' with
    | command cmd =>
      have hhead := encode_head cmd []
      rw [List.append_nil, ← show 0x02 :: c :: r = cmd.encode from he] at hhead
      simp at hhead
    | sniff c' h' => simpa [Message.encode] using congrArg (List.drop 2) he
    | quit => simp [Message.encode, quitMessage] at he
  | quit =>
    cases m' with
    | command cmd =>
      have hhead := encode_head cmd []
      rw [List.append_nil, ← show 0x03 :: r = cmd.encode from he] at hhead
      simp at hhead
    | sniff c h => simp [Message.encode, quitMessage] at he
    | quit => simpa [Message.encode, quitMessage] using he

def isParserDone (p : PrawtosParser) : Bool := decide (p.state = .parserDone)

theorem isParserDone_iff (p : PrawtosParser) : isParserDone p = true ↔ p.state = .parserDone := decide_eq_true_iff

theorem prawtosStopsAt {p : PrawtosParser} {l : List UInt8}
    (h : StopsAt prawtosParserFeed prawtosStops (prawtosParserInit p) l) :
    CommandEnd l (feedAll prawtosParserFeed (prawtosParserInit p) l) := by
  obtain ⟨u, c, rfl, hu, hd⟩ := h
  exact prawtosFeed_done p hu hd

theorem feedAll_sniff (p : PrawtosParser) (c : UInt8) :
    feedAll prawtosParserFeed (prawtosParserInit p) [0x02, c] =
      ({ prawtosParserInit p with type := 0x02, state := .cmdSniff } : PrawtosParser).cmdSniff c := rfl

theorem prawtosParser_recognises (p : PrawtosParser) :
    Recognises prawtosParserFeed prawtosStops isParserDone (prawtosParserInit p) messages where
  start := rfl
  prefixFree := messages_prefixFree
  waits := by
    intro l hu
    exact commandRead_goesOn (commandRead_undone p hu 0).1 (undone_not_done rfl hu)
  accepts := by
    intro l hs hok
    rw [isParserDone_iff] at hok
    cases prawtosStopsAt hs with
    | command cmd hl => exact ⟨.command cmd, hl⟩
    | quit hl => exact ⟨.quit, hl⟩
    | sniff c hl =>
      by_cases hc : 2 ≤ c
      · rw [hl, feedAll_sniff, PrawtosParser.cmdSniff, if_pos hc] at hok
        cases hok
      · exact ⟨.sniff c (UInt8.not_le.mp hc), hl⟩
    | error he => rw [hok] at he; cases he
  rejects := by
    intro l hs hok s hw
    have hno : ¬ (feedAll prawtosParserFeed (prawtosParserInit p) l).state = .parserDone := by
      rw [← isParserDone_iff, hok]
      exact Bool.false_ne_true
    have hcmd : ∀ cmd r r', l ++ r ≠ Command.encode cmd ++ r' := by
      cases prawtosStopsAt hs with
      | command _ _ hdone => exact absurd hdone hno
      | quit _ hdone => exact absurd hdone hno
      | sniff _ _ hdone => exact absurd hdone hno
      | error _ _ _ hc => exact hc
    -- QUIT and SNIFF have one and two octets: a refused start of them is too short
    obtain ⟨u, c, rfl, _, hd⟩ := hs
    obtain ⟨m, he⟩ := hw
    cases m with
    | command cmd => exact hcmd cmd s [] (by rw [List.append_nil]; exact he)
    | sniff c' hc' =>
      cases u with
      | nil =>
        obtain rfl : c = 0x02 := (List.cons.inj he).1
        cases hd
      | cons a u =>
        obtain ⟨rfl, ht⟩ := List.cons.inj he
        cases u with
        | nil =>
          obtain rfl : c = c' := (List.cons.inj ht).1
          apply hno
          rw [List.singleton_append, feedAll_sniff, PrawtosParser.cmdSniff, if_neg (UInt8.not_le.mpr hc')]
        | cons b u => simp at ht
    | quit =>
      cases u with
      | nil =>
        obtain rfl : c = 0x03 := (List.cons.inj he).1
        exact hno rfl
      | cons a u => simp [Message.encode, quitMessage] at he

/-! ## The verdict -/

theorem stored_encode (p : PrawtosParser) (m : Message) :
    m.Stored (feedAll prawtosParserFeed (prawtosParserInit p) m.encode) := by
  cases m with
  | command cmd => exact stored_command (feedAll_encode p cmd)
  | sniff c hc =>
    rw [Message.encode, feedAll_sniff, PrawtosParser.cmdSniff, if_neg (UInt8.not_le.mpr hc)]
    exact ⟨rfl, rfl⟩
  | quit => rfl

theorem prawtosFeed_stays (q : PrawtosParser) (c : UInt8) (h : prawtosStops q = true) :
    prawtosStops (prawtosParserFeed q c) = true ∧
      prawtosIsDone (prawtosParserFeed q c).state = prawtosIsDone q.state := by
  unfold prawtosParserFeed
  cases hst : q.state with
  | parserDone | error | errorUnsupportedType | errorUnsupportedCmd =>
    exact ⟨h, by rw [hst]⟩
  | errorUnsupportedAdmin => exact ⟨rfl, rfl⟩
  | _ => simp [prawtosStops, prawtosIsDone, hst] at h

theorem feedAll_parserDone {q : PrawtosParser} (h : q.state = .parserDone) (r : List UInt8) :
    feedAll prawtosParserFeed q r = q := by
  induction r with
  | nil => rfl
  | cons c r ih =>
    have hc : prawtosParserFeed q c = q := by unfold prawtosParserFeed; rw [h]
    rw [feedAll_cons, hc, ih]

theorem prawtosIsDone_error {q : PrawtosParser} (h : prawtosStops q = true) :
    (prawtosIsDone q.state).2 = true ↔ isParserDone q = false := by
  unfold prawtosStops at h
  unfold isParserDone
  cases hst : q.state with
  | parserDone | error | errorUnsupportedType | errorUnsupportedCmd | errorUnsupportedAdmin => decide
  | _ => rw [hst] at h; cases h

/-- The parser is done exactly at the last byte of a message, and holds the
message from then on; it is in error exactly at the first byte that no message
has at its position; it waits exactly where a message goes on. The bytes that
follow change none of it. -/
structure ReadsMessage (p : PrawtosParser) (l : List UInt8) : Prop where
  done : StopsAt prawtosParserFeed prawtosStops (prawtosParserInit p) l ∧
    (feedAll prawtosParserFeed (prawtosParserInit p) l).state = .parserDone ↔ l ∈ messages
  stored : ∀ m r, l = Message.encode m ++ r → m.Stored (feedAll prawtosParserFeed (prawtosParserInit p) l)
  error : StopsAt prawtosParserFeed prawtosStops (prawtosParserInit p) l ∧
    (prawtosIsDone (feedAll prawtosParserFeed (prawtosParserInit p) l).state).2 = true ↔ Strays messages l
  waits : prawtosStops (feedAll prawtosParserFeed (prawtosParserInit p) l) = false ↔ GoesOn messages l
  stays : ∀ r, prawtosStops (feedAll prawtosParserFeed (prawtosParserInit p) l) = true →
    prawtosIsDone (feedAll prawtosParserFeed (prawtosParserInit p) (l ++ r)).state =
      prawtosIsDone (feedAll prawtosParserFeed (prawtosParserInit p) l).state

theorem commandParser_verdict (p : PrawtosParser) (l : List UInt8) : ReadsMessage p l := by
  have hrec := prawtosParser_recognises p
  constructor
  · rw [← isParserDone_iff]
    exact stopsAt_word_iff hrec l
  · intro m r hl
    have hdone := (word_stopsAt hrec ⟨m, rfl⟩).2
    rw [isParserDone_iff] at hdone
    rw [hl, feedAll_append, feedAll_parserDone hdone]
    exact stored_encode p m
  · rw [← stopsAt_stray_iff hrec l]
    constructor
    · rintro ⟨hs, he⟩
      obtain ⟨_, _, _, _, hd⟩ := id hs
      exact ⟨hs, (prawtosIsDone_error hd).mp he⟩
    · rintro ⟨hs, he⟩
      obtain ⟨_, _, _, _, hd⟩ := id hs
      exact ⟨hs, (prawtosIsDone_error hd).mpr he⟩
  · rw [← undone_iff hrec l]
    constructor
    · intro hd
      exact undone_of_not_done (fun q c h => (prawtosFeed_stays q c h).1) hd
    · intro hu
      exact undone_not_done rfl hu
  · intro r hd
    rw [feedAll_append]
    exact (feedAll_stays (V := fun q => prawtosIsDone q.state) prawtosFeed_stays hd r).2

end SocksProxy
