import SocksProxy.Parser.Credentials

/-!
# The command parser (`prawtos_parser.c`)

`Command` is what the commands mean that have an effect, and `encode` how they
are sent. `CommandRead` ties the bytes fed so far to the state of the parser,
and `prawtosFeed_done` reads it at the end of a command.
-/

namespace SocksProxy

open Lib

inductive PrawtosParserState where
  | type
  | cmdGet
  | cmdUser
  | cmdSniff
  | admin
  | ulen
  | uname
  | plen
  | passwd
  | parserDone
  | error
  | errorUnsupportedType
  | errorUnsupportedCmd
  | errorUnsupportedAdmin
  deriving DecidableEq, Repr

structure UserSt where
  cmd : UInt8
  admin : UInt8
  deriving DecidableEq, Repr

/-- `get` is the command of the structure `get`; the other members of
`user_st` are the fields. -/
structure PrawtosParser extends Fields where
  get : UInt8
  user : UserSt
  type : UInt8
  state : PrawtosParserState
  deriving DecidableEq, Repr

def prawtosParserInit (p : PrawtosParser) : PrawtosParser :=
  { p with state := .type, get := 0, user := ⟨0, 0⟩, credentials := .zero }

namespace PrawtosParser

def typeOctet (c : UInt8) (p : PrawtosParser) : PrawtosParser :=
  { p with
    type := c
    state :=
      if c = 0x00 then .cmdGet
      else if c = 0x01 then .cmdUser
      else if c = 0x02 then .cmdSniff
      else if c = 0x03 then .parserDone
      else .errorUnsupportedType }

def cmdGet (c : UInt8) (p : PrawtosParser) : PrawtosParser :=
  if 4 ≤ c then { p with state := .errorUnsupportedCmd } else { p with get := c, state := .parserDone }

def cmdUser (c : UInt8) (p : PrawtosParser) : PrawtosParser :=
  { p with
    user.cmd := c
    state := if c = 0x00 then .admin else if c = 0x01 ∨ c = 0x02 then .ulen else .errorUnsupportedCmd }

def cmdSniff (c : UInt8) (p : PrawtosParser) : PrawtosParser :=
  if 2 ≤ c then { p with state := .errorUnsupportedCmd } else { p with get := c, state := .parserDone }

def isAdmin (c : UInt8) (p : PrawtosParser) : PrawtosParser :=
  { p with user.admin := c, state := if c = 0x00 ∨ c = 0x01 then .ulen else .errorUnsupportedAdmin }

def ulen (c : UInt8) (p : PrawtosParser) : PrawtosParser :=
  if c = 0 then { p with state := .error } else { p with toFields := p.toFields.ulen c, state := .uname }

def uname (c : UInt8) (p : PrawtosParser) : PrawtosParser :=
  let f := p.toFields.uname c
  { p with
    toFields := f
    state := if f.remainingIsDone then if p.user.cmd = 0x01 then .parserDone else .plen else .uname }

def plen (c : UInt8) (p : PrawtosParser) : PrawtosParser :=
  if c = 0 then { p with state := .error } else { p with toFields := p.toFields.plen c, state := .passwd }

def passwd (c : UInt8) (p : PrawtosParser) : PrawtosParser :=
  let f := p.toFields.passwd c
  { p with toFields := f, state := if f.remainingIsDone then .parserDone else .passwd }

end PrawtosParser

def prawtosParserFeed (p : PrawtosParser) (c : UInt8) : PrawtosParser :=
  match p.state with
  | .type => p.typeOctet c
  | .cmdGet => p.cmdGet c
  | .cmdUser => p.cmdUser c
  | .cmdSniff => p.cmdSniff c
  | .admin => p.isAdmin c
  | .ulen => p.ulen c
  | .uname => p.uname c
  | .plen => p.plen c
  | .passwd => p.passwd c
  | .parserDone => p
  | .error => p
  | .errorUnsupportedType => p
  | .errorUnsupportedCmd => p
  | .errorUnsupportedAdmin => { p with state := .error }

/-- The returned pair is `prawtos_is_done` and the error flag it raises. -/
def prawtosIsDone : PrawtosParserState → Bool × Bool
  | .error => (true, true)
  | .errorUnsupportedType => (true, true)
  | .errorUnsupportedCmd => (true, true)
  | .errorUnsupportedAdmin => (true, true)
  | .parserDone => (true, false)
  | _ => (false, false)

def prawtosStops (p : PrawtosParser) : Bool := (prawtosIsDone p.state).1

def prawtosConsume (b : Buffer) (p : PrawtosParser) : Buffer × PrawtosParser :=
  consume prawtosParserFeed prawtosStops b p

/-! ## Replies -/

inductive PrawtosResponseStatus where
  | success
  | serverFailure
  | cmdNotSupported
  | typeNotSupported
  | userLensError
  | userCredentia
  deriving DecidableEq, Repr

def PrawtosResponseStatus.toByte : PrawtosResponseStatus → UInt8
  | .success => 0x00
  | .serverFailure => 0x01
  | .cmdNotSupported => 0x02
  | .typeNotSupported => 0x03
  | .userLensError => 0x04
  | .userCredentia => 0x05

def getFrame (status : PrawtosResponseStatus) (cmd nargs : UInt8) (args : List UInt8) : List UInt8 :=
  [status.toByte, cmd, nargs] ++ args

def userMarshal (b : Buffer) (status : PrawtosResponseStatus) : Buffer × Int := bufferMarshal b [status.toByte]

def quitMarshal (b : Buffer) (status : PrawtosResponseStatus) : Buffer × Int := bufferMarshal b [status.toByte]

/-! ## Commands -/

/-- The commands that have a handler. -/
inductive Command where
  | get (cmd : UInt8) (h : cmd < 4)
  | create (admin : Bool) (uname passwd : Name)
  | delete (uname : Name)
  | edit (uname passwd : Name)

def adminOctet (admin : Bool) : UInt8 := if admin then 1 else 0

def Command.encode : Command → List UInt8
  | .get cmd _ => [0x00, cmd]
  | .create admin uname passwd =>
    0x01 :: 0x00 :: adminOctet admin :: uname.len :: (uname.1 ++ passwd.len :: passwd.1)
  | .delete uname => 0x01 :: 0x01 :: uname.len :: uname.1
  | .edit uname passwd => 0x01 :: 0x02 :: uname.len :: (uname.1 ++ passwd.len :: passwd.1)

/-- `QUIT`. -/
def quitMessage : List UInt8 := [0x03]

/-- The record of a parser that has read a command. -/
def Command.Parsed (p : PrawtosParser) : Command → Prop
  | .get cmd _ => p.type = 0x00 ∧ p.get = cmd
  | .create admin uname passwd =>
    p.type = 0x01 ∧ p.user = ⟨0x00, adminOctet admin⟩ ∧ p.credentials = credentialsOf uname passwd
  | .delete uname => p.type = 0x01 ∧ p.user.cmd = 0x01 ∧ p.credentials = unameFields uname.len uname.1
  | .edit uname passwd => p.type = 0x01 ∧ p.user.cmd = 0x02 ∧ p.credentials = credentialsOf uname passwd

/-- What comes before the name in a message of type USERS. -/
inductive UserHead : List UInt8 → UserSt → Prop
  | create (admin : Bool) : UserHead [0x01, 0x00, adminOctet admin] ⟨0x00, adminOctet admin⟩
  | delete : UserHead [0x01, 0x01] ⟨0x01, 0x00⟩
  | edit : UserHead [0x01, 0x02] ⟨0x02, 0x00⟩

theorem userHead_head {h : List UInt8} {user : UserSt} (hh : UserHead h user) (t : List UInt8) :
    (h ++ t).head? = some 0x01 := by
  cases hh <;> rfl

/-- What the parser knows after the bytes `l`. -/
def CommandRead (l : List UInt8) (p : PrawtosParser) : Prop :=
  match p.state with
  | .type => l = [] ∧ p.get = 0 ∧ p.user = ⟨0, 0⟩ ∧ p.credentials = .zero
  | .cmdGet => l = [0x00] ∧ p.type = 0x00
  | .cmdUser => l = [0x01] ∧ p.type = 0x01 ∧ p.user = ⟨0, 0⟩ ∧ p.credentials = .zero
  | .cmdSniff => l = [0x02] ∧ p.type = 0x02
  | .admin => l = [0x01, 0x00] ∧ p.type = 0x01 ∧ p.user = ⟨0, 0⟩ ∧ p.credentials = .zero
  | .ulen => UserHead l p.user ∧ p.type = 0x01 ∧ p.credentials = .zero
  | .uname =>
    ∃ h n u, l = h ++ n :: u ∧ UserHead h p.user ∧ p.type = 0x01 ∧ NamePart n p.toFields u ∧
      p.credentials = unameFields n u
  | .plen =>
    ∃ (h : List UInt8) (uname : Name), l = h ++ uname.len :: uname.1 ∧ UserHead h p.user ∧ p.type = 0x01 ∧
      p.user.cmd ≠ 0x01 ∧ p.credentials = unameFields uname.len uname.1
  | .passwd =>
    ∃ (h : List UInt8) (uname : Name) (n : UInt8) (v : List UInt8), l = h ++ uname.len :: (uname.1 ++ n :: v) ∧
      UserHead h p.user ∧ p.type = 0x01 ∧ p.user.cmd ≠ 0x01 ∧ NamePart n p.toFields v ∧
      p.credentials = passwdFields uname n v
  | .parserDone =>
    (∃ cmd : Command, l = cmd.encode ∧ cmd.Parsed p) ∨ (l = quitMessage ∧ p.type = 0x03) ∨
      ∃ c, l = [0x02, c] ∧ p.type = 0x02
  | .errorUnsupportedType => l = [p.type] ∧ 0x03 < p.type
  | .errorUnsupportedCmd =>
    ∃ c, l = [p.type, c] ∧ (p.type = 0x00 ∧ 4 ≤ c ∨ p.type = 0x01 ∧ 3 ≤ c ∨ p.type = 0x02)
  | .errorUnsupportedAdmin => ∃ c, l = [0x01, 0x00, c] ∧ p.type = 0x01 ∧ 2 ≤ c
  | .error =>
    p.type = 0x01 ∧ ∃ h, UserHead h p.user ∧
      (l = h ++ [0] ∨ p.user.cmd ≠ 0x01 ∧ ∃ uname : Name, l = h ++ uname.len :: (uname.1 ++ [0]))

theorem commandRead_init (p : PrawtosParser) : CommandRead [] (prawtosParserInit p) := ⟨rfl, rfl, rfl, rfl⟩

theorem commandRead_type {l : List UInt8} {p : PrawtosParser} (h : CommandRead l p) (hst : p.state = .type)
    (c : UInt8) :
    CommandRead (l ++ [c]) (p.typeOctet c) := by
  simp only [CommandRead, hst] at h
  obtain ⟨rfl, hg, hu, hf⟩ := h
  unfold PrawtosParser.typeOctet
  by_cases h0 : c = 0x00
  · subst h0; exact ⟨rfl, rfl⟩
  · by_cases h1 : c = 0x01
    · subst h1; exact ⟨rfl, rfl, hu, hf⟩
    · by_cases h2 : c = 0x02
      · subst h2; exact ⟨rfl, rfl⟩
      · by_cases h3 : c = 0x03
        · subst h3; exact Or.inr (Or.inl ⟨rfl, rfl⟩)
        · simp only [CommandRead, h0, h1, h2, h3, ite_false]
          refine ⟨rfl, ?_⟩
          rw [UInt8.lt_iff_toNat_lt]
          have h0' := toNat_ne h0
          have h1' := toNat_ne h1
          have h2' := toNat_ne h2
          have h3' := toNat_ne h3
          simp only [UInt8.reduceToNat] at h0' h1' h2' h3' ⊢; omega

theorem commandRead_uname {l : List UInt8} {p : PrawtosParser} (h : CommandRead l p) (hst : p.state = .uname)
    (c : UInt8) : CommandRead (l ++ [c]) (p.uname c) := by
  simp only [CommandRead, hst] at h
  obtain ⟨hd, n, u, rfl, hh, ht, hp, hf⟩ := h
  obtain ⟨hf', hn, hi⟩ := fields_unamePart hp hf c
  simp only [PrawtosParser.uname]
  rcases namePart_snoc hp hn hi c with ⟨hdone, hp'⟩ | ⟨hdone, m, hm, hl⟩
  · simp only [CommandRead, hdone, Bool.false_eq_true, ite_false]
    exact ⟨hd, n, u ++ [c], by simp, hh, ht, hp', hf'⟩
  · by_cases h1 : p.user.cmd = 0x01
    · simp only [CommandRead, hdone, h1, ite_true]
      refine Or.inl ⟨.delete m, ?_, ht, h1, by rw [hm, hl]; exact hf'⟩
      generalize p.user = user at hh h1
      cases hh with
      | delete => simp [Command.encode, hm, hl]
      | create admin => cases h1
      | edit => cases h1
    · simp only [CommandRead, hdone, h1, ite_true, ite_false]
      exact ⟨hd, m, by simp [hm, hl], hh, ht, h1, by rw [hm, hl]; exact hf'⟩

theorem commandRead_passwd {l : List UInt8} {p : PrawtosParser} (h : CommandRead l p) (hst : p.state = .passwd)
    (c : UInt8) : CommandRead (l ++ [c]) (p.passwd c) := by
  simp only [CommandRead, hst] at h
  obtain ⟨hd, uname, n, v, rfl, hh, ht, h1, hp, hf⟩ := h
  obtain ⟨hf', hn, hi⟩ := fields_passwdPart hp hf c
  simp only [PrawtosParser.passwd]
  rcases namePart_snoc hp hn hi c with ⟨hdone, hp'⟩ | ⟨hdone, m, hm, hl⟩
  · simp only [CommandRead, hdone, Bool.false_eq_true, ite_false]
    exact ⟨hd, uname, n, v ++ [c], by simp, hh, ht, h1, hp', hf'⟩
  · simp only [CommandRead, hdone, ite_true]
    have hcred : (p.toFields.passwd c).credentials = credentialsOf uname m := by
      rw [credentialsOf, hm, hl]; exact hf'
    left
    obtain ⟨f, get, user, type, state⟩ := p
    simp only at hh ht h1 hcred
    cases hh with
    | delete => exact absurd rfl h1
    | create admin => exact ⟨.create admin uname m, by simp [Command.encode, hm, hl], ht, rfl, hcred⟩
    | edit => exact ⟨.edit uname m, by simp [Command.encode, hm, hl], ht, rfl, hcred⟩

theorem commandRead_get {l : List UInt8} {p : PrawtosParser} (h : CommandRead l p) (hst : p.state = .cmdGet)
    (c : UInt8) : CommandRead (l ++ [c]) (p.cmdGet c) := by
  simp only [CommandRead, hst] at h
  obtain ⟨rfl, ht⟩ := h
  simp only [PrawtosParser.cmdGet]
  split
  · -- no such counter, so the command is refused here
    exact ⟨c, by rw [ht]; rfl, Or.inl ⟨ht, by assumption⟩⟩
  · exact Or.inl ⟨.get c (UInt8.not_le.mp (by assumption)), rfl, ht, rfl⟩

theorem commandRead_user {l : List UInt8} {p : PrawtosParser} (h : CommandRead l p) (hst : p.state = .cmdUser)
    (c : UInt8) : CommandRead (l ++ [c]) (p.cmdUser c) := by
  simp only [CommandRead, hst] at h
  obtain ⟨rfl, ht, hu, hf⟩ := h
  simp only [PrawtosParser.cmdUser]
  by_cases h0 : c = 0x00
  · subst h0; exact ⟨rfl, ht, by rw [hu], hf⟩
  · by_cases h1 : c = 0x01
    · subst h1; exact ⟨by rw [hu]; exact .delete, ht, hf⟩
    · by_cases h2 : c = 0x02
      · subst h2; exact ⟨by rw [hu]; exact .edit, ht, hf⟩
      · simp only [CommandRead, h0, h1, h2, or_false, ite_false]
        refine ⟨c, by rw [ht]; rfl, Or.inr (Or.inl ⟨ht, ?_⟩)⟩
        rw [UInt8.le_iff_toNat_le]
        have h0' := toNat_ne h0
        have h1' := toNat_ne h1
        have h2' := toNat_ne h2
        simp only [UInt8.reduceToNat] at h0' h1' h2' ⊢; omega

theorem commandRead_sniff {l : List UInt8} {p : PrawtosParser} (h : CommandRead l p) (hst : p.state = .cmdSniff)
    (c : UInt8) : CommandRead (l ++ [c]) (p.cmdSniff c) := by
  simp only [CommandRead, hst] at h
  obtain ⟨rfl, ht⟩ := h
  simp only [PrawtosParser.cmdSniff]
  split
  · exact ⟨c, by rw [ht]; rfl, Or.inr (Or.inr ht)⟩
  · exact Or.inr (Or.inr ⟨c, rfl, ht⟩)

theorem commandRead_admin {l : List UInt8} {p : PrawtosParser} (h : CommandRead l p) (hst : p.state = .admin)
    (c : UInt8) : CommandRead (l ++ [c]) (p.isAdmin c) := by
  simp only [CommandRead, hst] at h
  obtain ⟨rfl, ht, hu, hf⟩ := h
  simp only [PrawtosParser.isAdmin]
  by_cases h0 : c = 0x00
  · subst h0; exact ⟨by rw [hu]; exact .create false, ht, hf⟩
  · by_cases h1 : c = 0x01
    · subst h1; exact ⟨by rw [hu]; exact .create true, ht, hf⟩
    · simp only [CommandRead, h0, h1, or_false, ite_false]
      refine ⟨c, rfl, ht, ?_⟩
      rw [UInt8.le_iff_toNat_le]
      have h0' := toNat_ne h0
      have h1' := toNat_ne h1
      simp only [UInt8.reduceToNat] at h0' h1' ⊢; omega

theorem commandRead_ulen {l : List UInt8} {p : PrawtosParser} (h : CommandRead l p) (hst : p.state = .ulen)
    (c : UInt8) : CommandRead (l ++ [c]) (p.ulen c) := by
  simp only [CommandRead, hst] at h
  obtain ⟨hh, ht, hf⟩ := h
  simp only [PrawtosParser.ulen]
  split
  · rename_i hc
    exact ⟨ht, l, hh, Or.inl (by rw [hc])⟩
  · rename_i hc
    refine ⟨l, c, [], rfl, hh, ht, namePart_start hc p.toFields, ?_⟩
    simp only [Fields.ulen, Fields.remainingSet, hf]; rfl

theorem commandRead_plen {l : List UInt8} {p : PrawtosParser} (h : CommandRead l p) (hst : p.state = .plen)
    (c : UInt8) : CommandRead (l ++ [c]) (p.plen c) := by
  simp only [CommandRead, hst] at h
  obtain ⟨hd, uname, rfl, hh, ht, h1, hf⟩ := h
  simp only [PrawtosParser.plen]
  split
  · rename_i hc
    exact ⟨ht, hd, hh, Or.inr ⟨h1, uname, by rw [hc]; simp⟩⟩
  · rename_i hc
    refine ⟨hd, uname, c, [], by simp, hh, ht, h1, namePart_start hc p.toFields, ?_⟩
    simp only [Fields.plen, Fields.remainingSet, hf]; rfl

theorem commandRead_step {l : List UInt8} {p : PrawtosParser} (h : CommandRead l p) (hs : prawtosStops p = false)
    (c : UInt8) : CommandRead (l ++ [c]) (prawtosParserFeed p c) := by
  unfold prawtosParserFeed
  cases hst : p.state with
  | type => exact commandRead_type h hst c
  | cmdGet => exact commandRead_get h hst c
  | cmdUser => exact commandRead_user h hst c
  | cmdSniff => exact commandRead_sniff h hst c
  | admin => exact commandRead_admin h hst c
  | ulen => exact commandRead_ulen h hst c
  | uname => exact commandRead_uname h hst c
  | plen => exact commandRead_plen h hst c
  | passwd => exact commandRead_passwd h hst c
  | _ => simp [prawtosStops, hst, prawtosIsDone] at hs

theorem commandRead_undone (p : PrawtosParser) {u : List UInt8}
    (hu : Undone prawtosParserFeed prawtosStops (prawtosParserInit p) u) (c : UInt8) :
    CommandRead u (feedAll prawtosParserFeed (prawtosParserInit p) u) ∧
      CommandRead (u ++ [c]) (feedAll prawtosParserFeed (prawtosParserInit p) (u ++ [c])) := by
  refine undone_tracked ?_ (commandRead_init p) ?_ hu c
  · exact fun _ _ c h hs => commandRead_step h hs c
  · rfl

theorem encode_unique {a b : Command} {r r' : List UInt8} (h : a.encode ++ r = b.encode ++ r') :
    a = b ∧ r = r' := by
  have hadmin : ∀ {x y : Bool}, adminOctet x = adminOctet y → x = y := by decide
  cases a <;> cases b <;> simp only [Command.encode, List.cons_append, List.nil_append, List.append_assoc,
    List.cons.injEq, true_and] at h
  case get.get => obtain ⟨rfl, rfl⟩ := h; exact ⟨rfl, rfl⟩
  case create.create =>
    obtain ⟨ha, hu, h⟩ := h
    obtain ⟨rfl, hp⟩ := name_append_inj hu h
    rw [List.cons.injEq] at hp
    obtain ⟨rfl, rfl⟩ := name_append_inj hp.1 hp.2
    exact ⟨by rw [hadmin ha], rfl⟩
  case delete.delete =>
    obtain ⟨hu, h⟩ := h
    obtain ⟨rfl, rfl⟩ := name_append_inj hu h
    exact ⟨rfl, rfl⟩
  case edit.edit =>
    obtain ⟨hu, h⟩ := h
    obtain ⟨rfl, hp⟩ := name_append_inj hu h
    rw [List.cons.injEq] at hp
    obtain ⟨rfl, rfl⟩ := name_append_inj hp.1 hp.2
    exact ⟨rfl, rfl⟩
  all_goals exact absurd h.1 (by decide)

theorem encode_head (cmd : Command) (r : List UInt8) :
    (cmd.encode ++ r).head? = some 0x00 ∨ (cmd.encode ++ r).head? = some 0x01 := by
  cases cmd with
  | get cmd _ => exact Or.inl rfl
  | create _ _ _ | delete _ | edit _ _ => exact Or.inr rfl

theorem userHead_encode {h t r' : List UInt8} {user : UserSt} (hh : UserHead h user) (cmd : Command)
    (he : h ++ t = cmd.encode ++ r') :
    (user.cmd = 0x01 ∧ ∃ uname : Name, t = uname.len :: (uname.1 ++ r')) ∨
      ∃ uname passwd : Name, t = uname.len :: (uname.1 ++ passwd.len :: (passwd.1 ++ r')) := by
  cases hh with
  | create admin =>
    cases cmd with
    | create admin' uname passwd =>
      simp only [Command.encode, List.cons_append, List.nil_append, List.append_assoc, List.cons.injEq] at he
      exact Or.inr ⟨uname, passwd, he.2.2.2⟩
    | _ =>
      simp only [Command.encode, List.cons_append, List.nil_append, List.cons.injEq] at he
      first | exact absurd he.1 (by decide) | exact absurd he.2.1 (by decide)
  | delete =>
    cases cmd with
    | delete uname =>
      simp only [Command.encode, List.cons_append, List.nil_append, List.cons.injEq] at he
      exact Or.inl ⟨rfl, uname, he.2.2⟩
    | _ =>
      simp only [Command.encode, List.cons_append, List.nil_append, List.cons.injEq] at he
      first | exact absurd he.1 (by decide) | exact absurd he.2.1 (by decide)
  | edit =>
    cases cmd with
    | edit uname passwd =>
      simp only [Command.encode, List.cons_append, List.nil_append, List.append_assoc, List.cons.injEq] at he
      exact Or.inr ⟨uname, passwd, he.2.2⟩
    | _ =>
      simp only [Command.encode, List.cons_append, List.nil_append, List.cons.injEq] at he
      first | exact absurd he.1 (by decide) | exact absurd he.2.1 (by decide)

/-- The error a parser has met excludes that a command begins with these bytes. -/
theorem commandError_encode {l : List UInt8} {p : PrawtosParser} (h : CommandRead l p)
    (he : (prawtosIsDone p.state).2 = true) (cmd : Command) (r r' : List UInt8) : l ++ r ≠ cmd.encode ++ r' := by
  intro heq
  cases hst : p.state with
  | errorUnsupportedType =>
    simp only [CommandRead, hst] at h
    obtain ⟨rfl, ht⟩ := h
    cases cmd <;> simp only [Command.encode, List.cons_append, List.nil_append, List.cons.injEq] at heq <;>
      rw [heq.1] at ht <;> exact absurd ht (by decide)
  | errorUnsupportedCmd =>
    simp only [CommandRead, hst] at h
    obtain ⟨c, rfl, ht⟩ := h
    cases cmd with
    | get cmd hcmd =>
      simp only [Command.encode, List.cons_append, List.nil_append, List.cons.injEq] at heq
      rw [heq.1, heq.2.1] at ht
      rcases ht with ⟨-, ht⟩ | ⟨ht, -⟩ | ht
      · exact absurd hcmd (UInt8.not_lt.mpr ht)
      · cases ht
      · cases ht
    | _ =>
      simp only [Command.encode, List.cons_append, List.nil_append, List.cons.injEq] at heq
      rw [heq.1, heq.2.1] at ht
      revert ht; decide
  | errorUnsupportedAdmin =>
    simp only [CommandRead, hst] at h
    obtain ⟨c, rfl, -, hc⟩ := h
    cases cmd with
    | create admin uname passwd =>
      simp only [Command.encode, List.cons_append, List.nil_append, List.cons.injEq] at heq
      rw [heq.2.2.1] at hc
      cases admin <;> exact absurd hc (by decide)
    | _ =>
      simp only [Command.encode, List.cons_append, List.nil_append, List.cons.injEq] at heq
      first | exact absurd heq.1 (by decide) | exact absurd heq.2.1 (by decide)
  | error =>
    simp only [CommandRead, hst] at h
    obtain ⟨-, hd, hh, rfl | ⟨h1, uname, rfl⟩⟩ := h
    · rw [List.append_assoc] at heq
      rcases userHead_encode hh cmd heq with ⟨-, uname, ht⟩ | ⟨uname, passwd, ht⟩
      · exact name_len_ne uname (List.cons.inj ht).1.symm
      · exact name_len_ne uname (List.cons.inj ht).1.symm
    · rw [List.append_assoc] at heq
      rcases userHead_encode hh cmd heq with ⟨hd1, -⟩ | ⟨uname', passwd, ht⟩
      · exact h1 hd1
      · simp only [List.cons_append, List.append_assoc, List.cons.injEq] at ht
        obtain ⟨-, hp⟩ := name_append_inj ht.1 ht.2
        exact name_len_ne passwd (List.cons.inj hp).1.symm
  | _ => simp [prawtosIsDone, hst] at he

/-- The type of a command that is refused is its first octet, and is not that of QUIT. -/
theorem commandError_type {l : List UInt8} {p : PrawtosParser} (h : CommandRead l p)
    (he : (prawtosIsDone p.state).2 = true) : l.head? = some p.type ∧ p.type ≠ 0x03 := by
  cases hst : p.state with
  | errorUnsupportedType =>
    simp only [CommandRead, hst] at h
    obtain ⟨rfl, ht⟩ := h
    exact ⟨rfl, fun h => absurd (h ▸ ht) (by decide)⟩
  | errorUnsupportedCmd =>
    simp only [CommandRead, hst] at h
    obtain ⟨c, rfl, ⟨ht, -⟩ | ⟨ht, -⟩ | ht⟩ := h
    · exact ⟨rfl, by rw [ht]; decide⟩
    · exact ⟨rfl, by rw [ht]; decide⟩
    · exact ⟨rfl, by rw [ht]; decide⟩
  | errorUnsupportedAdmin =>
    simp only [CommandRead, hst] at h
    obtain ⟨c, rfl, ht, -⟩ := h
    exact ⟨by rw [ht]; rfl, by rw [ht]; decide⟩
  | error =>
    simp only [CommandRead, hst] at h
    obtain ⟨ht, hd, hh, hl⟩ := h
    rw [ht]
    rcases hl with rfl | ⟨-, uname, rfl⟩
    · exact ⟨userHead_head hh _, by decide⟩
    · exact ⟨userHead_head hh _, by decide⟩
  | _ => simp [prawtosIsDone, hst] at he

theorem commandRead_head {l : List UInt8} {p : PrawtosParser} (h : CommandRead l p) (hs : prawtosStops p = false) :
    (p.state = .type ∧ l = []) ∨ (p.state ≠ .type ∧ l.head? = some p.type) := by
  cases hst : p.state with
  | type =>
    simp only [CommandRead, hst] at h
    exact Or.inl ⟨rfl, h.1⟩
  | ulen =>
    simp only [CommandRead, hst] at h
    exact Or.inr ⟨by decide, by simpa [h.2.1] using userHead_head h.1 []⟩
  | uname =>
    simp only [CommandRead, hst] at h
    obtain ⟨hd, n, u, rfl, hh, ht, -⟩ := h
    exact Or.inr ⟨by decide, by rw [ht]; exact userHead_head hh _⟩
  | plen =>
    simp only [CommandRead, hst] at h
    obtain ⟨hd, uname, rfl, hh, ht, -⟩ := h
    exact Or.inr ⟨by decide, by rw [ht]; exact userHead_head hh _⟩
  | passwd =>
    simp only [CommandRead, hst] at h
    obtain ⟨hd, uname, n, v, rfl, hh, ht, -⟩ := h
    exact Or.inr ⟨by decide, by rw [ht]; exact userHead_head hh _⟩
  | cmdGet | cmdSniff =>
    simp only [CommandRead, hst] at h
    exact Or.inr ⟨by decide, by rw [h.1, h.2]; rfl⟩
  | cmdUser | admin =>
    simp only [CommandRead, hst] at h
    exact Or.inr ⟨by decide, by rw [h.1, h.2.1]; rfl⟩
  | _ => simp [prawtosStops, prawtosIsDone, hst] at hs

/-- A parser that stops has read a command that has a handler, QUIT or a SNIFF
command, or has met an error. -/
inductive CommandEnd (l : List UInt8) (p : PrawtosParser) : Prop
  | command (cmd : Command) (hl : l = cmd.encode) (hs : p.state = .parserDone) (hp : cmd.Parsed p) : CommandEnd l p
  | quit (hl : l = quitMessage) (hs : p.state = .parserDone) (ht : p.type = 0x03) : CommandEnd l p
  | sniff (c : UInt8) (hl : l = [0x02, c]) (hs : p.state = .parserDone) (ht : p.type = 0x02) : CommandEnd l p
  | error (he : (prawtosIsDone p.state).2 = true) (hl : l.head? = some p.type) (ht : p.type ≠ 0x03)
      (hc : ∀ cmd r r', l ++ r ≠ Command.encode cmd ++ r') : CommandEnd l p

theorem prawtosFeed_done (p : PrawtosParser) {u : List UInt8} {c : UInt8}
    (hu : Undone prawtosParserFeed prawtosStops (prawtosParserInit p) u)
    (hd : prawtosStops (feedAll prawtosParserFeed (prawtosParserInit p) (u ++ [c])) = true) :
    CommandEnd (u ++ [c]) (feedAll prawtosParserFeed (prawtosParserInit p) (u ++ [c])) := by
  have h := (commandRead_undone p hu c).2
  generalize feedAll prawtosParserFeed (prawtosParserInit p) (u ++ [c]) = q at h hd ⊢
  generalize u ++ [c] = l at h ⊢
  by_cases he : (prawtosIsDone q.state).2 = true
  · obtain ⟨hl, ht⟩ := commandError_type h he
    exact .error he hl ht fun cmd r r' => commandError_encode h he cmd r r'
  · cases hst : q.state with
    | parserDone =>
      simp only [CommandRead, hst] at h
      rcases h with ⟨cmd, hl, hp⟩ | ⟨hl, ht⟩ | ⟨c', hl, ht⟩
      · exact .command cmd hl hst hp
      · exact .quit hl hst ht
      · exact .sniff c' hl hst ht
    | error | errorUnsupportedType | errorUnsupportedCmd | errorUnsupportedAdmin =>
      simp [prawtosIsDone, hst] at he
    | _ => simp [prawtosStops, prawtosIsDone, hst] at hd

theorem commandRead_unfinished {l : List UInt8} {p : PrawtosParser} (h : CommandRead l p)
    (hs : prawtosStops p = false) (cmd : Command) : l ≠ cmd.encode := by
  intro heq
  have hempty : l = cmd.encode ++ [] := by rw [List.append_nil, heq]
  cases hst : p.state with
  | type =>
    simp only [CommandRead, hst] at h
    have hhead := encode_head cmd []
    rw [List.append_nil, ← heq, h.1] at hhead
    simp at hhead
  | cmdGet | cmdUser | cmdSniff | admin =>
    simp only [CommandRead, hst] at h
    rw [h.1] at heq
    cases cmd <;> simp [Command.encode] at heq
  | ulen =>
    simp only [CommandRead, hst] at h
    rcases userHead_encode h.1 cmd (by rwa [List.append_nil]) with ⟨_, uname, ht⟩ | ⟨uname, passwd, ht⟩
    · cases ht
    · cases ht
  | uname =>
    simp only [CommandRead, hst] at h
    obtain ⟨hd, n, u, rfl, hh, _, ⟨_, _, hlt⟩, _⟩ := h
    rcases userHead_encode hh cmd hempty with ⟨_, uname, ht⟩ | ⟨uname, passwd, ht⟩
    · rw [List.cons.injEq] at ht
      rw [ht.1, ht.2, name_toNat, List.append_nil] at hlt
      exact Nat.lt_irrefl _ hlt
    · rw [List.cons.injEq] at ht
      rw [ht.1, ht.2, name_toNat, List.length_append] at hlt
      omega
  | plen =>
    simp only [CommandRead, hst] at h
    obtain ⟨hd, uname, rfl, hh, _, h1, _⟩ := h
    rcases userHead_encode hh cmd hempty with ⟨hd1, _⟩ | ⟨uname', passwd, ht⟩
    · exact h1 hd1
    · rw [List.cons.injEq, ← List.append_nil uname.1] at ht
      obtain ⟨_, hp⟩ := name_append_inj ht.1 ht.2
      cases hp
  | passwd =>
    simp only [CommandRead, hst] at h
    obtain ⟨hd, uname, n, v, rfl, hh, _, h1, ⟨_, _, hlt⟩, _⟩ := h
    rcases userHead_encode hh cmd hempty with ⟨hd1, _⟩ | ⟨uname', passwd, ht⟩
    · exact h1 hd1
    · rw [List.cons.injEq] at ht
      obtain ⟨_, hp⟩ := name_append_inj ht.1 ht.2
      rw [List.cons.injEq] at hp
      rw [hp.1, hp.2, name_toNat, List.append_nil] at hlt
      exact Nat.lt_irrefl _ hlt
  | _ => simp [prawtosStops, hst, prawtosIsDone] at hs

theorem feedAll_encode (p : PrawtosParser) (cmd : Command) :
    cmd.Parsed (feedAll prawtosParserFeed (prawtosParserInit p) cmd.encode) := by
  rcases feedUntil_cases prawtosParserFeed prawtosStops (prawtosParserInit p) cmd.encode with
    ⟨hu, _⟩ | ⟨u, c, r, hl, hu, hd, _⟩
  · have hne : cmd.encode ≠ [] := by
      intro h
      have hhead := encode_head cmd []
      rw [List.append_nil, h] at hhead
      simp at hhead
    have hread := (commandRead_undone p hu 0).1
    exact absurd rfl (commandRead_unfinished hread (undone_done hu hne) cmd)
  · have hhead := encode_head cmd []
    rw [List.append_nil, hl, ← List.singleton_append (x := c), ← List.append_assoc] at hhead
    cases prawtosFeed_done p hu hd with
    | command cmd' hcmd _ hp =>
      have hsplit : cmd.encode ++ [] = cmd'.encode ++ r := by
        rw [List.append_nil, hl, ← hcmd, List.append_assoc]; rfl
      obtain ⟨rfl, rfl⟩ := encode_unique hsplit
      rw [hl]
      exact hp
    | quit hq _ _ => rw [hq] at hhead; simp [quitMessage] at hhead
    | sniff c' hq _ _ => rw [hq] at hhead; simp at hhead
    | error _ _ _ hc => exact absurd (by rw [List.append_nil, hl, List.append_assoc]; rfl) (hc cmd r [])

end SocksProxy
