import SocksProxy.Parser.Credentials

/-!
# The authentication parser (`auth_parser.c`)

`AuthRead` ties the bytes fed so far to the state of the parser, and
`authFeed_done` reads it at the end of a message.
-/

namespace SocksProxy

open Lib

def authSuccess : UInt8 := 0x00
def authBadCredentials : UInt8 := 0x03

inductive AuthState where
  | version
  | ulen
  | uname
  | plen
  | passwd
  | done
  | error
  | errorUnsupportedVersion
  deriving DecidableEq, Repr

structure AuthParser extends Fields where
  state : AuthState
  deriving DecidableEq, Repr

def authParserInit : AuthParser := ⟨⟨.zero, 0, 0⟩, .version⟩

namespace AuthParser

def version (c : UInt8) : AuthState := if c = 0x01 then .ulen else .errorUnsupportedVersion

def ulen (c : UInt8) (p : AuthParser) : AuthParser :=
  if c = 0 then { p with state := .error } else ⟨p.toFields.ulen c, .uname⟩

def uname (c : UInt8) (p : AuthParser) : AuthParser :=
  let f := p.toFields.uname c
  ⟨f, if f.remainingIsDone then .plen else .uname⟩

def plen (c : UInt8) (p : AuthParser) : AuthParser :=
  if c = 0 then { p with state := .error } else ⟨p.toFields.plen c, .passwd⟩

def passwd (c : UInt8) (p : AuthParser) : AuthParser :=
  let f := p.toFields.passwd c
  ⟨f, if f.remainingIsDone then .done else .passwd⟩

end AuthParser

def authParserFeed (p : AuthParser) (c : UInt8) : AuthParser :=
  match p.state with
  | .version => { p with state := AuthParser.version c }
  | .ulen => p.ulen c
  | .uname => p.uname c
  | .plen => p.plen c
  | .passwd => p.passwd c
  | .done => { p with state := .error }
  | .error => { p with state := .error }
  | .errorUnsupportedVersion => { p with state := .error }

/-- The returned pair is `auth_is_done` and the error flag it raises. -/
def authIsDone : AuthState → Bool × Bool
  | .error => (true, true)
  | .errorUnsupportedVersion => (true, true)
  | .done => (true, false)
  | _ => (false, false)

def authStops (p : AuthParser) : Bool := (authIsDone p.state).1

def authConsume (b : Buffer) (p : AuthParser) : Buffer × AuthParser := consume authParserFeed authStops b p

def authMarshal (b : Buffer) (status : UInt8) : Buffer × Int := bufferMarshal b [0x01, status]

/-! ## Authentication messages -/

/-- `01 ULEN UNAME PLEN PASSWD`. -/
def authMessage (uname passwd : Name) : List UInt8 := 0x01 :: uname.len :: (uname.1 ++ passwd.len :: passwd.1)

/-- What the parser knows after the bytes `l`. -/
def AuthRead (l : List UInt8) (p : AuthParser) : Prop :=
  match p.state with
  | .version => l = [] ∧ p.credentials = .zero
  | .ulen => l = [0x01] ∧ p.credentials = .zero
  | .uname => ∃ n u, l = 0x01 :: n :: u ∧ NamePart n p.toFields u ∧ p.credentials = unameFields n u
  | .plen => ∃ uname : Name, l = 0x01 :: uname.len :: uname.1 ∧ p.credentials = unameFields uname.len uname.1
  | .passwd =>
    ∃ (uname : Name) (n : UInt8) (v : List UInt8), l = 0x01 :: uname.len :: (uname.1 ++ n :: v) ∧
      NamePart n p.toFields v ∧ p.credentials = passwdFields uname n v
  | .done => ∃ uname passwd, l = authMessage uname passwd ∧ p.credentials = credentialsOf uname passwd
  | .error => l = [0x01, 0] ∨ ∃ uname : Name, l = 0x01 :: uname.len :: (uname.1 ++ [0])
  | .errorUnsupportedVersion => ∃ c, c ≠ 0x01 ∧ l = [c]

theorem authRead_init : AuthRead [] authParserInit := ⟨rfl, rfl⟩

theorem authRead_step {l : List UInt8} {p : AuthParser} (h : AuthRead l p) (hs : authStops p = false) (c : UInt8) :
    AuthRead (l ++ [c]) (authParserFeed p c) := by
  unfold authParserFeed
  cases hst : p.state with
  | version =>
    simp only [AuthRead, hst] at h
    obtain ⟨rfl, hz⟩ := h
    by_cases hc : c = 0x01
    · subst hc; exact ⟨rfl, hz⟩
    · simp only [AuthRead, AuthParser.version, hc, ite_false]
      exact ⟨c, hc, rfl⟩
  | ulen =>
    simp only [AuthRead, hst] at h
    obtain ⟨rfl, hz⟩ := h
    simp only [AuthParser.ulen]
    split
    · rename_i hc; exact Or.inl (by rw [hc]; rfl)
    · rename_i hc
      exact ⟨c, [], rfl, namePart_start hc p.toFields, by simp only [Fields.ulen, Fields.remainingSet, hz]; rfl⟩
  | uname =>
    simp only [AuthRead, hst] at h
    obtain ⟨n, u, rfl, hp, hf⟩ := h
    obtain ⟨hf', hn, hi⟩ := fields_unamePart hp hf c
    simp only [AuthParser.uname]
    rcases namePart_snoc hp hn hi c with ⟨hd, hp'⟩ | ⟨hd, m, hm, hl⟩
    · simp only [AuthRead, hd, Bool.false_eq_true, ite_false]
      exact ⟨n, u ++ [c], rfl, hp', hf'⟩
    · simp only [AuthRead, hd, ite_true]
      exact ⟨m, by rw [hm, hl]; rfl, by rw [hm, hl]; exact hf'⟩
  | plen =>
    simp only [AuthRead, hst] at h
    obtain ⟨uname, rfl, hf⟩ := h
    simp only [AuthParser.plen]
    split
    · rename_i hc; exact Or.inr ⟨uname, by rw [hc]; rfl⟩
    · rename_i hc
      exact ⟨uname, c, [], rfl, namePart_start hc p.toFields,
        by simp only [Fields.plen, Fields.remainingSet, hf]; rfl⟩
  | passwd =>
    simp only [AuthRead, hst] at h
    obtain ⟨uname, n, v, rfl, hp, hf⟩ := h
    obtain ⟨hf', hn, hi⟩ := fields_passwdPart hp hf c
    simp only [AuthParser.passwd]
    rcases namePart_snoc hp hn hi c with ⟨hd, hp'⟩ | ⟨hd, m, hm, hl⟩
    · simp only [AuthRead, hd, Bool.false_eq_true, ite_false]
      exact ⟨uname, n, v ++ [c], by simp, hp', hf'⟩
    · simp only [AuthRead, hd, ite_true]
      exact ⟨uname, m, by simp [authMessage, hm, hl], by rw [credentialsOf, hm, hl]; exact hf'⟩
  | _ => simp [authStops, hst, authIsDone] at hs

theorem authRead_undone {u : List UInt8} (hu : Undone authParserFeed authStops authParserInit u) (c : UInt8) :
    AuthRead u (feedAll authParserFeed authParserInit u) ∧
      AuthRead (u ++ [c]) (feedAll authParserFeed authParserInit (u ++ [c])) := by
  refine undone_tracked ?_ authRead_init ?_ hu c
  · exact fun _ _ c h hs => authRead_step h hs c
  · rfl

/-- A parser that stops has read a message, or has met an error. -/
theorem authFeed_done {u : List UInt8} {c : UInt8} (hu : Undone authParserFeed authStops authParserInit u)
    (hd : authStops (feedAll authParserFeed authParserInit (u ++ [c])) = true) :
    (∃ uname passwd, u ++ [c] = authMessage uname passwd ∧
        (feedAll authParserFeed authParserInit (u ++ [c])).state = .done ∧
        (feedAll authParserFeed authParserInit (u ++ [c])).credentials = credentialsOf uname passwd) ∨
      ((authIsDone (feedAll authParserFeed authParserInit (u ++ [c])).state).2 = true ∧
        ∀ uname passwd r r', u ++ [c] ++ r ≠ authMessage uname passwd ++ r') := by
  have h := (authRead_undone hu c).2
  generalize feedAll authParserFeed authParserInit (u ++ [c]) = p at h hd ⊢
  generalize u ++ [c] = l at h ⊢
  unfold authStops at hd
  cases hst : p.state with
  | done =>
    simp only [AuthRead, hst] at h
    obtain ⟨uname, passwd, hl, hf⟩ := h
    exact Or.inl ⟨uname, passwd, hl, rfl, hf⟩
  | error =>
    simp only [AuthRead, hst] at h
    refine Or.inr ⟨rfl, fun uname passwd r r' he => ?_⟩
    rcases h with rfl | ⟨uname', rfl⟩
    · simp only [authMessage, List.cons_append, List.cons.injEq] at he
      exact name_len_ne uname he.2.1.symm
    · simp only [authMessage, List.cons_append, List.cons.injEq, List.append_assoc] at he
      obtain ⟨-, hlen, he⟩ := he
      obtain ⟨-, he⟩ := name_append_inj hlen he
      simp only [List.nil_append, List.cons.injEq] at he
      exact name_len_ne passwd he.1.symm
  | errorUnsupportedVersion =>
    simp only [AuthRead, hst] at h
    obtain ⟨c', hc, rfl⟩ := h
    refine Or.inr ⟨rfl, fun uname passwd r r' he => ?_⟩
    simp only [authMessage, List.cons_append, List.cons.injEq] at he
    exact hc he.1
  | _ => simp [hst, authIsDone] at hd

theorem authMessage_unique {uname passwd uname' passwd' : Name} {r r' : List UInt8}
    (h : authMessage uname passwd ++ r = authMessage uname' passwd' ++ r') :
    uname = uname' ∧ passwd = passwd' ∧ r = r' := by
  simp only [authMessage, List.cons_append, List.cons.injEq, List.append_assoc, true_and] at h
  obtain ⟨hlen, h⟩ := h
  obtain ⟨rfl, htail⟩ := name_append_inj hlen h
  rw [List.cons.injEq] at htail
  obtain ⟨rfl, hr⟩ := name_append_inj htail.1 htail.2
  exact ⟨rfl, rfl, hr⟩

/-- A parser that has been fed a message is done. -/
theorem authFeed_message {uname passwd : Name} {r : List UInt8} :
    ¬ Undone authParserFeed authStops authParserInit (authMessage uname passwd ++ r) := by
  intro hu
  have hm := (undone_append.mp hu).1
  have hs := undone_done hm (List.cons_ne_nil _ _)
  have h := (authRead_undone hm 0).1
  generalize feedAll authParserFeed authParserInit (authMessage uname passwd) = p at h hs
  cases hst : p.state with
  | version =>
    simp only [AuthRead, hst] at h
    exact List.cons_ne_nil _ _ h.1
  | ulen =>
    simp only [AuthRead, hst, authMessage, List.cons.injEq, reduceCtorEq, and_false, false_and] at h
  | uname =>
    simp only [AuthRead, hst, authMessage, List.cons.injEq, true_and] at h
    obtain ⟨n, u, ⟨rfl, hl⟩, ⟨-, -, hn⟩, -⟩ := h
    rw [name_toNat] at hn
    have := congrArg List.length hl
    simp only [List.length_append, List.length_cons] at this; omega
  | plen =>
    simp only [AuthRead, hst, authMessage, List.cons.injEq, true_and] at h
    obtain ⟨uname', ⟨hlen, hl⟩, -⟩ := h
    rw [← List.append_nil uname'.1] at hl
    exact List.cons_ne_nil _ _ (name_append_inj hlen hl).2
  | passwd =>
    simp only [AuthRead, hst, authMessage, List.cons.injEq, true_and] at h
    obtain ⟨uname', n, v, ⟨hlen, hl⟩, ⟨-, -, hn⟩, -⟩ := h
    obtain ⟨-, hp⟩ := name_append_inj hlen hl
    rw [List.cons.injEq] at hp
    rw [← hp.1, name_toNat, hp.2] at hn
    exact Nat.lt_irrefl _ hn
  | _ => simp [authStops, hst, authIsDone] at hs

end SocksProxy
