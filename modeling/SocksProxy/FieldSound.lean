import SocksProxy.LoginSound
import SocksProxy.CommandSound

/-!
# What the parsers write into the name and password arrays

The writes of a byte are read off the parser before it (`unameWrites`,
`passwdWrites`; `uname_writes` and `passwd_writes` tie them to the fields). The
terminator of a name goes where the name ends, which is past the array exactly
for a name as long as the array.
-/

namespace SocksProxy

open Lib

inductive FieldWrite where
  | uname (i : Nat) (c : UInt8)
  | passwd (i : Nat) (c : UInt8)
  deriving DecidableEq, Repr

def FieldWrite.index : FieldWrite → Nat
  | .uname i _ => i
  | .passwd i _ => i

def FieldWrite.apply (a : Credentials) : FieldWrite → Credentials
  | .uname i c => a.storeUname i c
  | .passwd i c => a.storePasswd i c

namespace Fields

def advance (p : Fields) : Fields := { p with i := p.i + 1 }

def unameWrites (p : Fields) (c : UInt8) : List FieldWrite :=
  .uname p.i.toNat c :: if p.advance.remainingIsDone then [.uname p.advance.i.toNat 0] else []

def passwdWrites (p : Fields) (c : UInt8) : List FieldWrite :=
  .passwd p.i.toNat c :: if p.advance.remainingIsDone then [.passwd p.advance.i.toNat 0] else []

theorem uname_writes (p : Fields) (c : UInt8) :
    (p.uname c).credentials = (p.unameWrites c).foldl FieldWrite.apply p.credentials := by
  simp only [Fields.uname, unameWrites, remainingIsDone, advance]
  by_cases h : p.n ≤ p.i + 1
  · simp [h, FieldWrite.apply]
  · simp [h, FieldWrite.apply]

theorem passwd_writes (p : Fields) (c : UInt8) :
    (p.passwd c).credentials = (p.passwdWrites c).foldl FieldWrite.apply p.credentials := by
  simp only [Fields.passwd, passwdWrites, remainingIsDone, advance]
  by_cases h : p.n ≤ p.i + 1
  · simp [h, FieldWrite.apply]
  · simp [h, FieldWrite.apply]

end Fields

def authFieldWrites (p : AuthParser) (c : UInt8) : List FieldWrite :=
  match p.state with
  | .uname => p.toFields.unameWrites c
  | .passwd => p.toFields.passwdWrites c
  | _ => []

def prawtosFieldWrites (p : PrawtosParser) (c : UInt8) : List FieldWrite :=
  match p.state with
  | .uname => p.toFields.unameWrites c
  | .passwd => p.toFields.passwdWrites c
  | _ => []

/-- The octets that a write may reach. -/
def Inside (ws : List FieldWrite) : Prop := ∀ w ∈ ws, w.index < maxLen

theorem inside_nil : Inside [] := by
  intro w hw
  cases hw

/-! ## One octet of a name -/

section
variable {p : Fields} {n : UInt8} {u : List UInt8}

theorem advance_done (h : NamePart n p u) : p.advance.i.toNat = u.length + 1 ∧
    (p.advance.remainingIsDone = true ↔ n.toNat = u.length + 1) := by
  obtain ⟨hn, hi, hlt⟩ := h
  have hsucc := toNat_succ hi (hn ▸ hlt)
  refine ⟨hsucc, ?_⟩
  simp only [Fields.remainingIsDone, Fields.advance, hn, decide_eq_true_eq, UInt8.le_iff_toNat_le, hsucc]
  omega

/-- Only the terminator of a name of 255 octets leaves its array. -/
theorem writes_inside (h : NamePart n p u) (f : Nat → UInt8 → FieldWrite) (hf : ∀ i c, (f i c).index = i)
    (c : UInt8) :
    Inside (f p.i.toNat c :: if p.advance.remainingIsDone then [f p.advance.i.toNat 0] else []) ↔
      ¬ (n.toNat = maxLen ∧ (u ++ [c]).length = maxLen) := by
  obtain ⟨hi, hd⟩ := advance_done h
  have hlt := h.2.2
  have hn := n.toNat_lt
  simp only [Inside, List.mem_cons, forall_eq_or_imp, hf, h.2.1, List.length_append, List.length_singleton, maxLen]
  by_cases hdone : p.advance.remainingIsDone = true
  · have hlen := hd.mp hdone
    simp only [hdone, ite_true, List.mem_singleton, forall_eq, hf, hi]
    omega
  · have hlen := mt hd.mpr hdone
    simp only [hdone, Bool.false_eq_true, ite_false, List.not_mem_nil, false_implies, implies_true, and_true]
    omega

end

/-! ## Bodies -/

/-- A name of 255 octets, or a password of that length behind a name. -/
inductive FullBody : Bool → List UInt8 → Prop
  | uname (second : Bool) (u : List UInt8) (h : u.length = maxLen) : FullBody second (0xFF :: u)
  | passwd (uname : Name) (v : List UInt8) (h : v.length = maxLen) :
      FullBody true (uname.len :: (uname.1 ++ 0xFF :: v))

theorem full_isName {v : List UInt8} (hv : v.length = maxLen) : v ≠ [] ∧ v.length ≤ maxLen := by
  constructor
  · intro h
    rw [h] at hv
    cases hv
  · exact Nat.le_of_eq hv

def fullName (v : List UInt8) (hv : v.length = maxLen) : Name := ⟨v, full_isName hv⟩

@[simp] theorem fullName_len (v : List UInt8) (hv : v.length = maxLen) : (fullName v hv).len = 0xFF := by
  apply UInt8.toNat_inj.mp
  rw [name_toNat]
  exact hv

theorem fullBody_length {second : Bool} {b : List UInt8} (h : FullBody second b) : maxLen < b.length := by
  cases h with
  | uname _ u h =>
    rw [List.length_cons, h]
    omega
  | passwd uname v h =>
    simp only [List.length_cons, List.length_append, h]
    omega

section
variable {second : Bool} {n c : UInt8} {u v : List UInt8} {uname : Name}

theorem fullBody_uname (hlt : u.length < n.toNat) :
    FullBody second (n :: (u ++ [c])) ↔ n.toNat = maxLen ∧ (u ++ [c]).length = maxLen := by
  constructor
  · intro h
    generalize hb : n :: (u ++ [c]) = b at h
    cases h with
    | uname _ u' hu =>
      rw [List.cons.injEq] at hb
      rw [hb.1, hb.2]
      exact ⟨rfl, hu⟩
    | passwd uname v hv =>
      rw [List.cons.injEq] at hb
      have hlen := congrArg List.length hb.2
      rw [hb.1, name_toNat] at hlt
      simp only [List.length_append, List.length_cons, List.length_nil] at hlen
      omega
  · intro h
    have hn : n = 0xFF := UInt8.toNat_inj.mp h.1
    rw [hn]
    exact .uname second _ h.2

theorem fullBody_plen : ¬ FullBody second (uname.len :: (uname.1 ++ [c])) := by
  intro h
  generalize hb : uname.len :: (uname.1 ++ [c]) = b at h
  cases h with
  | uname _ u hu =>
    rw [List.cons.injEq] at hb
    have hlen := congrArg UInt8.toNat hb.1
    have hu' := congrArg List.length hb.2
    rw [name_toNat] at hlen
    simp only [List.length_append, List.length_singleton, hu, hlen] at hu'
    cases hu'
  | passwd uname' v hv =>
    rw [List.cons.injEq] at hb
    have hc := (name_append_inj hb.1 hb.2).2
    rw [List.cons.injEq] at hc
    rw [← hc.2] at hv
    cases hv

theorem fullBody_passwd :
    FullBody second (uname.len :: (uname.1 ++ n :: (v ++ [c]))) ↔
      second = true ∧ n.toNat = maxLen ∧ (v ++ [c]).length = maxLen := by
  constructor
  · intro h
    generalize hb : uname.len :: (uname.1 ++ n :: (v ++ [c])) = b at h
    cases h with
    | uname _ u hu =>
      rw [List.cons.injEq] at hb
      have hlen := congrArg UInt8.toNat hb.1
      have hu' := congrArg List.length hb.2
      rw [name_toNat] at hlen
      rw [List.length_append, List.length_cons, hu, hlen] at hu'
      simp only [maxLen, UInt8.reduceToNat] at hu'
      omega
    | passwd uname' v' hv =>
      rw [List.cons.injEq] at hb
      have hp := (name_append_inj hb.1 hb.2).2
      rw [List.cons.injEq] at hp
      rw [hp.1, hp.2]
      exact ⟨rfl, rfl, hv⟩
  · intro h
    obtain ⟨hs, hn, hv⟩ := h
    have hn' : n = 0xFF := UInt8.toNat_inj.mp hn
    rw [hs, hn']
    exact .passwd uname _ hv

end

/-! ## The writes of a run -/

/-- A machine that reads a language stays inside its arrays until the bytes that
complete a full field have come. -/
theorem outputs_inside_iff {P : Type} {feed : P → UInt8 → P} {done ok : P → Bool} {p : P} {W : Set (List UInt8)}
    (hrec : Recognises feed done ok p W) (hstay : ∀ q b, done q = true → done (feed q b) = true)
    {writes : P → UInt8 → List FieldWrite} (hstop : ∀ q c, done q = true → writes q c = [])
    {Full : List UInt8 → Prop} (hnil : ¬ Full []) (hgo : ∀ u c, Full (u ++ [c]) → GoesOn W u)
    (hstep : ∀ u c, Undone feed done p u → (Inside (writes (feedAll feed p u) c) ↔ ¬ Full (u ++ [c])))
    (l : List UInt8) : Inside (outputs feed writes p l) ↔ ¬ ∃ w r, l = w ++ r ∧ Full w := by
  constructor
  · intro hin hfull
    obtain ⟨w, r, hl, hw⟩ := hfull
    rcases List.eq_nil_or_concat w with hnil' | ⟨u, c, hu⟩
    · -- a field is not full before its first byte
      exact hnil (hnil' ▸ hw)
    · rw [List.concat_eq_append] at hu
      rw [hu] at hl hw
      have hundone := (undone_iff hrec u).mpr (hgo u c hw)
      apply (hstep u c hundone).mp _ hw
      intro x hx
      exact hin x (mem_outputs.mpr ⟨u, c, r, by rw [hl, List.append_assoc]; rfl, hx⟩)
  · intro hno x hx
    obtain ⟨u, c, r, hl, hx⟩ := mem_outputs.mp hx
    cases hd : done (feedAll feed p u) with
    | true =>
      -- a machine that is done stores nothing
      rw [hstop _ c hd] at hx
      cases hx
    | false =>
      have hundone := undone_of_not_done hstay hd
      apply (hstep u c hundone).mpr _ x hx
      intro hfull
      exact hno ⟨u ++ [c], r, by rw [hl, List.append_assoc]; rfl, hfull⟩

/-! ## The authentication parser -/

/-- A login up to the end of a field of 255 octets. -/
def FullLogin (w : List UInt8) : Prop := ∃ b, w = 0x01 :: b ∧ FullBody true b

theorem authFeed_stopped (q : AuthParser) (c : UInt8) (h : authStops q = true) :
    (authParserFeed q c).state = .error := by
  unfold authParserFeed
  cases hst : q.state with
  | done | error | errorUnsupportedVersion => rfl
  | _ => simp [authStops, authIsDone, hst] at h

theorem authFeed_stays (q : AuthParser) (c : UInt8) (h : authStops q = true) :
    authStops (authParserFeed q c) = true := by
  rw [authStops, authFeed_stopped q c h]
  rfl

theorem feedAll_stopped {q : AuthParser} (h : authStops q = true) {r : List UInt8} (hr : r ≠ []) :
    (feedAll authParserFeed q r).state = .error := by
  induction r generalizing q with
  | nil => exact absurd rfl hr
  | cons c r ih =>
    rw [feedAll_cons]
    cases r with
    | nil => exact authFeed_stopped q c h
    | cons d r => exact ih (authFeed_stays q c h) (List.cons_ne_nil d r)

theorem authFieldWrites_stopped (q : AuthParser) (c : UInt8) (h : authStops q = true) :
    authFieldWrites q c = [] := by
  unfold authFieldWrites
  cases hst : q.state with
  | done | error | errorUnsupportedVersion => rfl
  | _ => simp [authStops, authIsDone, hst] at h

theorem fullLogin_goesOn (u : List UInt8) (c : UInt8) (h : FullLogin (u ++ [c])) : GoesOn authMessages u := by
  obtain ⟨b, hb, hf⟩ := h
  cases hf with
  | uname _ v hv =>
    refine ⟨c, oneOctet.len :: oneOctet.1, fullName v hv, oneOctet, ?_⟩
    rw [← List.singleton_append, ← List.append_assoc, hb, authMessage, fullName_len]
    rfl
  | passwd uname v hv =>
    refine ⟨c, [], uname, fullName v hv, ?_⟩
    rw [hb, authMessage, fullName_len]
    rfl

theorem authFieldWrites_inside {l : List UInt8} {p : AuthParser} (h : AuthRead l p) (hs : authStops p = false)
    (c : UInt8) :
    Inside (authFieldWrites p c) ↔ ¬ FullLogin (l ++ [c]) := by
  have hbody : ∀ b, FullLogin (0x01 :: b) ↔ FullBody true b := by
    intro b
    constructor
    · intro hf
      obtain ⟨b', hb, hf⟩ := hf
      rw [List.cons.injEq] at hb
      exact hb.2 ▸ hf
    · intro hf
      exact ⟨b, rfl, hf⟩
  unfold authFieldWrites
  cases hst : p.state with
  | version =>
    simp only [AuthRead, hst] at h
    rw [h.1]
    refine iff_of_true inside_nil ?_
    intro hf
    obtain ⟨b, hb, hf⟩ := hf
    rw [List.nil_append, List.cons.injEq] at hb
    have := fullBody_length hf
    simp [← hb.2] at this
  | ulen =>
    simp only [AuthRead, hst] at h
    rw [h.1, List.singleton_append, hbody]
    exact iff_of_true inside_nil fun hf => by simpa [maxLen] using fullBody_length hf
  | uname =>
    simp only [AuthRead, hst] at h
    obtain ⟨n, u, rfl, hp, _⟩ := h
    rw [List.cons_append, List.cons_append, hbody, fullBody_uname hp.2.2]
    exact writes_inside hp .uname (fun _ _ => rfl) c
  | plen =>
    simp only [AuthRead, hst] at h
    obtain ⟨uname, rfl, _⟩ := h
    rw [List.cons_append, List.cons_append, hbody]
    exact iff_of_true inside_nil fullBody_plen
  | passwd =>
    simp only [AuthRead, hst] at h
    obtain ⟨uname, n, v, rfl, hp, _⟩ := h
    rw [List.cons_append, List.cons_append, List.append_assoc, List.cons_append, hbody, fullBody_passwd]
    simp only [true_and]
    exact writes_inside hp .passwd (fun _ _ => rfl) c
  | _ => simp [authStops, authIsDone, hst] at hs

theorem authFieldWrites_iff (l : List UInt8) :
    Inside (outputs authParserFeed authFieldWrites authParserInit l) ↔ ¬ ∃ w r, l = w ++ r ∧ FullLogin w := by
  apply outputs_inside_iff authParser_recognises authFeed_stays authFieldWrites_stopped
  · intro h
    obtain ⟨b, hb, _⟩ := h
    cases hb
  · exact fullLogin_goesOn
  · intro u c hu
    exact authFieldWrites_inside (authRead_undone hu c).1 (undone_not_done rfl hu) c

/-! ## The command parser -/

/-- A command up to the end of a field of 255 octets. -/
def FullCommand (w : List UInt8) : Prop :=
  ∃ h user b, UserHead h user ∧ w = h ++ b ∧ FullBody (user.cmd != 0x01) b

theorem userHead_unique {h h' b b' : List UInt8} {user user' : UserSt} (hh : UserHead h user)
    (hh' : UserHead h' user') (he : h ++ b = h' ++ b') : user = user' ∧ b = b' := by
  have hadmin : ∀ {x y : Bool}, adminOctet x = adminOctet y → x = y := by decide
  cases hh with
  | create admin =>
    cases hh' with
    | create admin' =>
      simp only [List.cons_append, List.nil_append, List.cons.injEq, true_and] at he
      rw [hadmin he.1]
      exact ⟨rfl, he.2⟩
    | delete => simp at he
    | edit => simp at he
  | delete =>
    cases hh' with
    | create admin' => simp at he
    | delete => exact ⟨rfl, by simpa using he⟩
    | edit => simp at he
  | edit =>
    cases hh' with
    | create admin' => simp at he
    | delete => simp at he
    | edit => exact ⟨rfl, by simpa using he⟩

theorem fullCommand_head {h b : List UInt8} {user : UserSt} (hh : UserHead h user) :
    FullCommand (h ++ b) ↔ FullBody (user.cmd != 0x01) b := by
  constructor
  · intro hf
    obtain ⟨h', user', b', hh', he, hf⟩ := hf
    obtain ⟨hu, hb⟩ := userHead_unique hh hh' he
    rw [hu, hb]
    exact hf
  · intro hf
    exact ⟨h, user, b, hh, rfl, hf⟩

theorem fullCommand_length {w : List UInt8} (h : FullCommand w) : maxLen < w.length := by
  obtain ⟨h', user, b, _, rfl, hf⟩ := h
  have := fullBody_length hf
  rw [List.length_append]
  omega

theorem prawtosFieldWrites_stopped (q : PrawtosParser) (c : UInt8) (h : prawtosStops q = true) :
    prawtosFieldWrites q c = [] := by
  unfold prawtosFieldWrites
  cases hst : q.state with
  | uname | passwd => simp [prawtosStops, prawtosIsDone, hst] at h
  | _ => rfl

theorem fullCommand_goesOn (u : List UInt8) (c : UInt8) (h : FullCommand (u ++ [c])) : GoesOn messages u := by
  obtain ⟨h, user, b, hh, hb, hf⟩ := h
  -- The field is the last of the command, or a password follows.
  have hlast : ∀ cmd : Command, u ++ [c] = cmd.encode → GoesOn messages u := by
    intro cmd hcmd
    exact ⟨c, [], .command cmd, hcmd⟩
  have hnext : ∀ cmd : Command, u ++ [c] ++ oneOctet.len :: oneOctet.1 = cmd.encode → GoesOn messages u := by
    intro cmd hcmd
    refine ⟨c, oneOctet.len :: oneOctet.1, .command cmd, ?_⟩
    rw [Message.encode, ← hcmd, List.append_assoc]
    rfl
  generalize hs : (user.cmd != 0x01) = second at hf
  cases hf with
  | uname _ v hv =>
    cases hh with
    | create admin =>
      apply hnext (.create admin (fullName v hv) oneOctet)
      rw [hb, Command.encode, fullName_len]
      rfl
    | delete =>
      apply hlast (.delete (fullName v hv))
      rw [hb, Command.encode, fullName_len]
      rfl
    | edit =>
      apply hnext (.edit (fullName v hv) oneOctet)
      rw [hb, Command.encode, fullName_len]
      rfl
  | passwd uname v hv =>
    cases hh with
    | create admin =>
      apply hlast (.create admin uname (fullName v hv))
      rw [hb, Command.encode, fullName_len]
      rfl
    | delete => cases hs
    | edit =>
      apply hlast (.edit uname (fullName v hv))
      rw [hb, Command.encode, fullName_len]
      rfl

theorem prawtosFieldWrites_inside {l : List UInt8} {p : PrawtosParser} (h : CommandRead l p)
    (hs : prawtosStops p = false) (c : UInt8) : Inside (prawtosFieldWrites p c) ↔ ¬ FullCommand (l ++ [c]) := by
  have hshort : ∀ {l : List UInt8}, l.length < 3 → ¬ FullCommand (l ++ [c]) := by
    intro l hl hf
    have hlen := fullCommand_length hf
    rw [List.length_append, List.length_singleton] at hlen
    simp only [maxLen] at hlen
    omega
  unfold prawtosFieldWrites
  cases hst : p.state with
  | type | cmdGet | cmdUser | cmdSniff | admin =>
    simp only [CommandRead, hst] at h
    exact iff_of_true inside_nil (hshort (by simp [h.1]))
  | ulen =>
    simp only [CommandRead, hst] at h
    rw [fullCommand_head h.1]
    exact iff_of_true inside_nil fun hf => by simpa [maxLen] using fullBody_length hf
  | uname =>
    simp only [CommandRead, hst] at h
    obtain ⟨hd, n, u, rfl, hh, _, hp, _⟩ := h
    rw [List.append_assoc, List.cons_append, fullCommand_head hh, fullBody_uname hp.2.2]
    exact writes_inside hp .uname (fun _ _ => rfl) c
  | plen =>
    simp only [CommandRead, hst] at h
    obtain ⟨hd, uname, rfl, hh, _⟩ := h
    rw [List.append_assoc, List.cons_append, fullCommand_head hh]
    exact iff_of_true inside_nil fullBody_plen
  | passwd =>
    simp only [CommandRead, hst] at h
    obtain ⟨hd, uname, n, v, rfl, hh, _, h1, hp, _⟩ := h
    have hsecond : (p.user.cmd != 0x01) = true := by simpa using h1
    rw [List.append_assoc, List.cons_append, List.append_assoc, List.cons_append, fullCommand_head hh,
      fullBody_passwd]
    simp only [hsecond, true_and]
    exact writes_inside hp .passwd (fun _ _ => rfl) c
  | _ => simp [prawtosStops, prawtosIsDone, hst] at hs

theorem prawtosFieldWrites_iff (p : PrawtosParser) (l : List UInt8) :
    Inside (outputs prawtosParserFeed prawtosFieldWrites (prawtosParserInit p) l) ↔
      ¬ ∃ w r, l = w ++ r ∧ FullCommand w := by
  apply outputs_inside_iff (prawtosParser_recognises p)
    (fun q c h => (prawtosFeed_stays q c h).1) prawtosFieldWrites_stopped
  · intro h
    exact absurd (fullCommand_length h) (by decide)
  · exact fullCommand_goesOn
  · intro u c hu
    exact prawtosFieldWrites_inside (commandRead_undone p hu c).1 (undone_not_done rfl hu) c

/-! ## Terminated strings -/

/-- The array holds the name and a NUL behind it, and so a string function stays inside. -/
structure HoldsString (len : UInt8) (field : List UInt8) (m : Name) : Prop where
  length : field.length = maxLen
  len : len = m.len
  terminated : ∃ r, field = m.1 ++ 0 :: r
  string : ∀ r, cString (field ++ r) = cString m.1

theorem holdsString_nameField {m : Name} (h : m.1.length ≠ maxLen) : HoldsString m.len (nameField m.1) m := by
  have hlt : m.1.length < maxLen := Nat.lt_of_le_of_ne m.2.2 h
  obtain ⟨k, hk⟩ : ∃ k, maxLen - m.1.length = k + 1 := ⟨maxLen - m.1.length - 1, by omega⟩
  refine ⟨length_nameField m.2.2, rfl, ⟨List.replicate k 0, ?_⟩, cString_nameField hlt⟩
  rw [nameField, hk, List.replicate_succ]

theorem len_of_full {m : Name} (h : m.1.length = maxLen) : m.len = 0xFF := fullName_len m.1 h

/-- A login stays inside the arrays, and leaves a string in each when it is done. -/
def LoginInside (l : List UInt8) : Prop :=
  Inside (outputs authParserFeed authFieldWrites authParserInit l) ∧
    let q := feedAll authParserFeed authParserInit l
    q.state = .done → ∃ uname passwd, l = authMessage uname passwd ∧
      HoldsString q.credentials.ulen q.credentials.uname uname ∧
      HoldsString q.credentials.plen q.credentials.passwd passwd

/-- What of a message has to be in the arrays, and terminated. -/
def Message.Terminated (q : PrawtosParser) : Message → Prop
  | .command (.create _ uname passwd) =>
    HoldsString q.credentials.ulen q.credentials.uname uname ∧
      HoldsString q.credentials.plen q.credentials.passwd passwd
  | .command (.delete uname) => HoldsString q.credentials.ulen q.credentials.uname uname
  | .command (.edit uname passwd) =>
    HoldsString q.credentials.ulen q.credentials.uname uname ∧
      HoldsString q.credentials.plen q.credentials.passwd passwd
  | _ => True

def CommandInside (p : PrawtosParser) (l : List UInt8) : Prop :=
  Inside (outputs prawtosParserFeed prawtosFieldWrites (prawtosParserInit p) l) ∧
    let q := feedAll prawtosParserFeed (prawtosParserInit p) l
    q.state = .parserDone → ∃ (m : Message) (r : List UInt8), l = m.encode ++ r ∧ m.Terminated q

theorem login_terminated {l : List UInt8} (hno : ¬ ∃ w r, l = w ++ r ∧ FullLogin w)
    (hdone : (feedAll authParserFeed authParserInit l).state = .done) :
    ∃ uname passwd, l = authMessage uname passwd ∧
      HoldsString (feedAll authParserFeed authParserInit l).credentials.ulen
        (feedAll authParserFeed authParserInit l).credentials.uname uname ∧
      HoldsString (feedAll authParserFeed authParserInit l).credentials.plen
        (feedAll authParserFeed authParserInit l).credentials.passwd passwd := by
  have hstop : authStops (feedAll authParserFeed authParserInit l) = true := by
    rw [authStops, hdone]
    rfl
  rcases undone_or_stopsAt authParserFeed authStops authParserInit l with hu | ⟨w, r, hl, hs, _⟩
  · rw [undone_not_done rfl hu] at hstop
    cases hstop
  · obtain ⟨hread, hw⟩ := authRead_stopsAt hs
    by_cases hr : r = []
    · rw [hr, List.append_nil] at hl
      rw [← hl] at hread
      simp only [AuthRead, hdone] at hread
      obtain ⟨uname, passwd, hmsg, hcred⟩ := hread
      refine ⟨uname, passwd, hmsg, ?_, ?_⟩
      · rw [hcred]
        apply holdsString_nameField
        intro hfull
        -- the name alone is already a full field, whatever follows
        refine hno ⟨0x01 :: uname.len :: uname.1, passwd.len :: passwd.1, hmsg, _, rfl, ?_⟩
        rw [len_of_full hfull]
        exact .uname true uname.1 hfull
      · rw [hcred]
        apply holdsString_nameField
        intro hfull
        refine hno ⟨authMessage uname passwd, [], by rw [List.append_nil, hmsg], _, rfl, ?_⟩
        rw [len_of_full hfull]
        exact .passwd uname passwd.1 hfull
    · -- the machine would have stopped in the error state before `r`
      rw [hl, feedAll_append, feedAll_stopped hw hr] at hdone
      cases hdone

section
variable {l : List UInt8} (hno : ¬ ∃ w r, l = w ++ r ∧ FullCommand w)
include hno

theorem uname_notFull {h t : List UInt8} {user : UserSt} {uname : Name} (hh : UserHead h user)
    (hl : l = h ++ uname.len :: uname.1 ++ t) : uname.1.length ≠ maxLen := by
  intro hfull
  refine hno ⟨_, t, hl, h, user, _, hh, rfl, ?_⟩
  rw [len_of_full hfull]
  exact .uname _ uname.1 hfull

theorem passwd_notFull {h t : List UInt8} {user : UserSt} {uname passwd : Name} (hh : UserHead h user)
    (hcmd : user.cmd ≠ 0x01) (hl : l = h ++ uname.len :: (uname.1 ++ passwd.len :: passwd.1) ++ t) :
    passwd.1.length ≠ maxLen := by
  intro hfull
  refine hno ⟨_, t, hl, h, user, _, hh, rfl, ?_⟩
  have hsecond : (user.cmd != 0x01) = true := by simpa using hcmd
  rw [len_of_full hfull, hsecond]
  exact .passwd uname passwd.1 hfull

/-- A command with no field of 255 octets leaves its fields terminated. -/
theorem encode_terminated {cmd : Command} {r : List UInt8} {q : PrawtosParser} (hl : l = cmd.encode ++ r)
    (hp : cmd.Parsed q) : (Message.command cmd).Terminated q := by
  cases cmd with
  | get cmd hget => trivial
  | create admin uname passwd =>
    obtain ⟨_, _, hcred⟩ := hp
    simp only [Message.Terminated, hcred]
    constructor
    · apply holdsString_nameField
      exact uname_notFull hno (t := passwd.len :: passwd.1 ++ r) (.create admin) (by rw [hl]; simp [Command.encode])
    · apply holdsString_nameField
      exact passwd_notFull hno (.create admin) (show (0x00 : UInt8) ≠ 0x01 by decide) (by rw [hl]; rfl)
  | delete uname =>
    -- a DELETE carries no password
    obtain ⟨_, _, hcred⟩ := hp
    simp only [Message.Terminated, hcred]
    apply holdsString_nameField
    exact uname_notFull hno .delete (by rw [hl]; rfl)
  | edit uname passwd =>
    obtain ⟨_, _, hcred⟩ := hp
    simp only [Message.Terminated, hcred]
    constructor
    · apply holdsString_nameField
      exact uname_notFull hno (t := passwd.len :: passwd.1 ++ r) .edit (by rw [hl]; simp [Command.encode])
    · apply holdsString_nameField
      exact passwd_notFull hno .edit (by decide) (by rw [hl]; rfl)

end

/-- What stops the parser before the end of a stream is what the stream is read as. -/
theorem parserDone_prefix (p : PrawtosParser) {w r : List UInt8}
    (hw : prawtosStops (feedAll prawtosParserFeed (prawtosParserInit p) w) = true)
    (hdone : (feedAll prawtosParserFeed (prawtosParserInit p) (w ++ r)).state = .parserDone) :
    (feedAll prawtosParserFeed (prawtosParserInit p) w).state = .parserDone := by
  have hstay := (commandParser_verdict p w).stays r hw
  rw [hdone] at hstay
  cases hok : isParserDone (feedAll prawtosParserFeed (prawtosParserInit p) w) with
  | true => exact (isParserDone_iff _).mp hok
  | false =>
    have herr := (prawtosIsDone_error hw).mpr hok
    rw [← hstay] at herr
    cases herr

theorem command_terminated (p : PrawtosParser) {l : List UInt8} (hno : ¬ ∃ w r, l = w ++ r ∧ FullCommand w)
    (hdone : (feedAll prawtosParserFeed (prawtosParserInit p) l).state = .parserDone) :
    ∃ (m : Message) (r : List UInt8), l = m.encode ++ r ∧
      m.Terminated (feedAll prawtosParserFeed (prawtosParserInit p) l) := by
  have hstop : prawtosStops (feedAll prawtosParserFeed (prawtosParserInit p) l) = true := by
    rw [prawtosStops, hdone]
    rfl
  rcases undone_or_stopsAt prawtosParserFeed prawtosStops (prawtosParserInit p) l with hu | ⟨w, r, hl, hs, _⟩
  · rw [undone_not_done rfl hu] at hstop
    cases hstop
  · obtain ⟨_, _, _, _, hw⟩ := id hs
    have hwdone := parserDone_prefix p hw (hl ▸ hdone)
    -- the octets after the end of the message change nothing
    have hsame :
        feedAll prawtosParserFeed (prawtosParserInit p) l = feedAll prawtosParserFeed (prawtosParserInit p) w := by
      rw [hl, feedAll_append, feedAll_parserDone hwdone]
    rw [hsame]
    cases prawtosStopsAt hs with
    | command cmd hcmd _ hp =>
      rw [hcmd] at hl
      exact ⟨.command cmd, r, hl, encode_terminated hno hl hp⟩
    | quit hq _ _ =>
      rw [hq] at hl
      exact ⟨.quit, r, hl, trivial⟩
    | sniff c hc _ _ =>
      by_cases hle : 2 ≤ c
      · rw [hc, feedAll_sniff, PrawtosParser.cmdSniff, if_pos hle] at hwdone
        cases hwdone
      · rw [hc] at hl
        exact ⟨.sniff c (UInt8.not_le.mp hle), r, hl, trivial⟩
    | error he _ _ _ =>
      rw [hwdone] at he
      cases he

/-- Both parsers stay inside their arrays, and end what they store, exactly until a name or a
password of 255 octets is complete. -/
theorem fields_inside_iff (p : PrawtosParser) (l : List UInt8) :
    (LoginInside l ↔ ¬ ∃ w r, l = w ++ r ∧ FullLogin w) ∧
      (CommandInside p l ↔ ¬ ∃ w r, l = w ++ r ∧ FullCommand w) := by
  constructor
  · constructor
    · intro h
      exact (authFieldWrites_iff l).mp h.1
    · intro hno
      exact ⟨(authFieldWrites_iff l).mpr hno, login_terminated hno⟩
  · constructor
    · intro h
      exact (prawtosFieldWrites_iff p l).mp h.1
    · intro hno
      exact ⟨(prawtosFieldWrites_iff p l).mpr hno, command_terminated p hno⟩

/-- The terminator of a name of 255 octets lands on the length of the password. -/
theorem fullName_overruns : ¬ LoginInside (0x01 :: 0xFF :: List.replicate 255 0x61) := by
  intro h
  have hw : FieldWrite.uname 255 0 ∈
      outputs authParserFeed authFieldWrites authParserInit (0x01 :: 0xFF :: List.replicate 255 0x61) := by
    decide +kernel
  exact absurd (h.1 _ hw) (by decide)

end SocksProxy
