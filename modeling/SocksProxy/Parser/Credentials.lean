import SocksProxy.Parser.Consume

/-!
# A name and a password

`auth_parser.c` and `prawtos_parser.c` read a name and a password octet by
octet into the same four fields. `nameField` is what an array holds that has
been filled with a name; the lemmas say what one octet does to the fields.
-/

namespace SocksProxy

def maxLen : Nat := 0xFF

/-- The string that starts at a pointer to `memory`. -/
def cString (memory : List UInt8) : List UInt8 := memory.takeWhile (· != 0)

/-- `struct auth`, and the last four members of `user_st`. -/
structure Credentials where
  ulen : UInt8
  uname : List UInt8
  plen : UInt8
  passwd : List UInt8
  deriving DecidableEq, Repr

def Credentials.zero : Credentials := ⟨0, List.replicate maxLen 0, 0, List.replicate maxLen 0⟩

namespace Credentials

/-- `plen` follows `uname`. -/
def storeUname (a : Credentials) (i : Nat) (c : UInt8) : Credentials :=
  if i < maxLen then { a with uname := a.uname.set i c } else { a with plen := c }

/-- What follows `passwd` is a status that has not been set yet. -/
def storePasswd (a : Credentials) (i : Nat) (c : UInt8) : Credentials := { a with passwd := a.passwd.set i c }

/-- The memory from `uname` on. -/
def unamePtr (a : Credentials) : List UInt8 := a.uname ++ a.plen :: a.passwd

/-- The memory from `passwd` on. -/
def passwdPtr (a : Credentials) : List UInt8 := a.passwd

end Credentials

/-- The fields, and the counters of the parser that fills them. -/
structure Fields where
  credentials : Credentials
  n : UInt8
  i : UInt8
  deriving DecidableEq, Repr

namespace Fields

def remainingSet (p : Fields) (n : UInt8) : Fields := { p with i := 0, n := n }

def remainingIsDone (p : Fields) : Bool := decide (p.n ≤ p.i)

def ulen (p : Fields) (c : UInt8) : Fields := { p.remainingSet c with credentials.ulen := c }

def uname (p : Fields) (c : UInt8) : Fields :=
  let p := { p with credentials := p.credentials.storeUname p.i.toNat c, i := p.i + 1 }
  if p.remainingIsDone then { p with credentials := p.credentials.storeUname p.i.toNat 0 } else p

def plen (p : Fields) (c : UInt8) : Fields := { p.remainingSet c with credentials.plen := c }

def passwd (p : Fields) (c : UInt8) : Fields :=
  let p := { p with credentials := p.credentials.storePasswd p.i.toNat c, i := p.i + 1 }
  if p.remainingIsDone then { p with credentials := p.credentials.storePasswd p.i.toNat 0 } else p

end Fields

/-! ## Names -/

/-- A name or a password as a message carries it: one to 255 octets. -/
abbrev Name := { l : List UInt8 // l ≠ [] ∧ l.length ≤ maxLen }

def Name.len (l : Name) : UInt8 := UInt8.ofNat l.1.length

theorem name_toNat (l : Name) : l.len.toNat = l.1.length := by
  have := l.2.2
  simp only [Name.len, UInt8.toNat_ofNat', maxLen] at this ⊢; omega

theorem name_len_ne (l : Name) : l.len ≠ 0 := by
  intro h
  have := congrArg UInt8.toNat h
  rw [name_toNat] at this
  exact l.2.1 (List.eq_nil_of_length_eq_zero this)

theorem name_append_inj {a b : Name} {r r' : List UInt8} (h : a.len = b.len) (he : a.1 ++ r = b.1 ++ r') :
    a = b ∧ r = r' := by
  have hlen : a.1.length = b.1.length := by rw [← name_toNat, ← name_toNat, h]
  obtain ⟨h1, h2⟩ := List.append_inj he hlen
  exact ⟨Subtype.ext h1, h2⟩

/-- An array of `maxLen` octets of which the first hold a name. -/
def nameField (l : List UInt8) : List UInt8 := l ++ List.replicate (maxLen - l.length) 0

theorem filledTo_nameField (l : List UInt8) : FilledTo maxLen l (nameField l) := rfl

theorem nameField_set {l : List UInt8} (h : l.length < maxLen) (c : UInt8) :
    (nameField l).set l.length c = nameField (l ++ [c]) :=
  filledTo_set (filledTo_nameField l) h c

/-- The terminator of a name falls on an octet that is 0 already. -/
theorem nameField_terminated {l : List UInt8} (h : l.length < maxLen) :
    (nameField l).set l.length 0 = nameField l := by
  unfold nameField
  obtain ⟨m, hm⟩ : ∃ m, maxLen - l.length = m + 1 := ⟨maxLen - l.length - 1, by omega⟩
  rw [hm, List.set_append_right _ _ (Nat.le_refl _), Nat.sub_self, List.replicate_succ, List.set_cons_zero]

theorem length_nameField {l : List UInt8} (h : l.length ≤ maxLen) : (nameField l).length = maxLen := by
  simp only [nameField, List.length_append, List.length_replicate]; omega

/-- A string in an array that starts with it. -/
theorem cString_append_of_mem {l : List UInt8} (h : 0 ∈ l) (r : List UInt8) : cString (l ++ r) = cString l := by
  induction l with
  | nil => cases h
  | cons a l ih =>
    by_cases ha : a = 0
    · simp [cString, ha]
    · have hl : 0 ∈ l := (List.mem_cons.mp h).resolve_left (Ne.symm ha)
      have := ih hl
      simp only [cString, List.cons_append, List.takeWhile_cons] at this ⊢
      simp [ha, this]

theorem cString_of_noNul {l : List UInt8} (h : 0 ∉ l) (r : List UInt8) : cString (l ++ 0 :: r) = l := by
  induction l with
  | nil => simp [cString]
  | cons a l ih =>
    rw [List.mem_cons, not_or] at h
    have ha : a ≠ 0 := Ne.symm h.1
    have hl := ih h.2
    simp only [cString, List.cons_append, List.takeWhile_cons] at hl ⊢
    simp [ha, hl]

theorem cString_length_lt {l : List UInt8} (h : 0 ∈ l) : (cString l).length < l.length := by
  induction l with
  | nil => cases h
  | cons a l ih =>
    by_cases ha : a = 0
    · simp [cString, ha]
    · have ih := ih ((List.mem_cons.mp h).resolve_left (Ne.symm ha))
      simp only [cString, List.takeWhile_cons] at ih ⊢
      simpa [ha] using ih

theorem noNul_cString (l : List UInt8) : 0 ∉ cString l := by
  induction l with
  | nil => exact List.not_mem_nil
  | cons a l ih =>
    by_cases ha : a = 0
    · simp [cString, ha]
    · simp only [cString, List.takeWhile_cons] at ih ⊢
      simpa [ha, Ne.symm ha] using ih

theorem cString_of_not_mem {l : List UInt8} (h : 0 ∉ l) : cString l = l := by
  induction l with
  | nil => rfl
  | cons a l ih =>
    rw [List.mem_cons, not_or] at h
    have ih := ih h.2
    simp only [cString, List.takeWhile_cons] at ih ⊢
    simp [Ne.symm h.1, ih]

theorem cString_replicate (l : List UInt8) (k : Nat) (r : List UInt8) :
    cString (l ++ List.replicate (k + 1) 0 ++ r) = cString l := by
  induction l with
  | nil => simp [cString, List.replicate_succ]
  | cons a l ih =>
    simp only [cString, List.cons_append, List.takeWhile_cons] at ih ⊢
    rw [ih]

/-- The string in the field of a name that is shorter than the field. -/
theorem cString_nameField {l : List UInt8} (h : l.length < maxLen) (r : List UInt8) :
    cString (nameField l ++ r) = cString l := by
  obtain ⟨m, hm⟩ : ∃ m, maxLen - l.length = m + 1 := ⟨maxLen - l.length - 1, by omega⟩
  rw [nameField, hm]; exact cString_replicate l m r

/-- The field of a name that is terminated or shorter than the field. -/
theorem cString_field {l : List UInt8} (h : l.length < maxLen ∨ 0 ∈ l) (r : List UInt8) :
    cString (nameField l ++ r) = cString l := by
  rcases h with h | h
  · exact cString_nameField h r
  · by_cases hlt : l.length < maxLen
    · exact cString_nameField hlt r
    · rw [nameField, List.append_assoc, cString_append_of_mem h]

theorem cString_passwd {l : List UInt8} (hl : l.length ≤ maxLen) : cString (nameField l) = cString l := by
  by_cases h : l.length < maxLen
  · have := cString_nameField h []
    rwa [List.append_nil] at this
  · have : maxLen - l.length = 0 := by omega
    rw [nameField, this, List.replicate_zero, List.append_nil]

/-! ## One octet -/

section
variable {p : Fields} {l : List UInt8}

theorem fields_uname (hu : p.credentials.uname = nameField l) (hp : p.credentials.plen = 0)
    (hi : p.i.toNat = l.length) (hn : l.length < p.n.toNat) (c : UInt8) :
    p.uname c = { p with credentials.uname := nameField (l ++ [c]), i := p.i + 1 } ∧
      (p.i + 1).toNat = l.length + 1 := by
  have hi1 := toNat_succ hi hn
  have hlt : l.length < maxLen := by have := p.n.toNat_lt; unfold maxLen; omega
  have hstore : p.credentials.storeUname p.i.toNat c = { p.credentials with uname := nameField (l ++ [c]) } := by
    rw [Credentials.storeUname, hi, if_pos hlt, hu, nameField_set hlt]
  have hterm : ({ p.credentials with uname := nameField (l ++ [c]) } : Credentials).storeUname (p.i + 1).toNat 0 =
      { p.credentials with uname := nameField (l ++ [c]) } := by
    rw [Credentials.storeUname, hi1]
    have hlen : (l ++ [c]).length = l.length + 1 := by simp
    split
    · rename_i h; rw [← hlen] at h ⊢; simp only [nameField_terminated h]
    · rw [← hp]
  refine ⟨?_, hi1⟩
  unfold Fields.uname
  simp only [hstore]
  split
  · rw [hterm]
  · rfl

theorem fields_passwd (hu : p.credentials.passwd = nameField l) (hi : p.i.toNat = l.length)
    (hn : l.length < p.n.toNat) (c : UInt8) :
    p.passwd c = { p with credentials.passwd := nameField (l ++ [c]), i := p.i + 1 } ∧
      (p.i + 1).toNat = l.length + 1 := by
  have hi1 := toNat_succ hi hn
  have hlt : l.length < maxLen := by have := p.n.toNat_lt; unfold maxLen; omega
  have hstore : p.credentials.storePasswd p.i.toNat c = { p.credentials with passwd := nameField (l ++ [c]) } := by
    rw [Credentials.storePasswd, hi, hu, nameField_set hlt]
  have hterm : ({ p.credentials with passwd := nameField (l ++ [c]) } : Credentials).storePasswd (p.i + 1).toNat 0 =
      { p.credentials with passwd := nameField (l ++ [c]) } := by
    have hlen : (l ++ [c]).length = l.length + 1 := by simp
    rw [Credentials.storePasswd, hi1, ← hlen]
    by_cases h : (l ++ [c]).length < maxLen
    · simp only [nameField_terminated h]
    · have hle : (nameField (l ++ [c])).length ≤ (l ++ [c]).length := by
        rw [length_nameField (by omega)]; omega
      simp only [List.set_eq_of_length_le hle]
  refine ⟨?_, hi1⟩
  unfold Fields.passwd
  simp only [hstore]
  split
  · rw [hterm]
  · rfl

end

/-! ## Reading a name -/

/-- What is read of a name whose length field is `n`. -/
def NamePart (n : UInt8) (p : Fields) (l : List UInt8) : Prop :=
  p.n = n ∧ p.i.toNat = l.length ∧ l.length < n.toNat

theorem namePart_start {n : UInt8} (h : n ≠ 0) (p : Fields) : NamePart n (p.remainingSet n) [] :=
  ⟨rfl, rfl, Nat.pos_of_ne_zero fun h' => h (UInt8.toNat_inj.mp h')⟩

/-- One octet more is the last of the name, or a part of it still. -/
theorem namePart_snoc {n : UInt8} {p q : Fields} {l : List UInt8} (h : NamePart n p l) (hn : q.n = p.n)
    (hi : q.i.toNat = l.length + 1) (c : UInt8) :
    (q.remainingIsDone = false ∧ NamePart n q (l ++ [c])) ∨
      (q.remainingIsDone = true ∧ ∃ m : Name, m.1 = l ++ [c] ∧ m.len = n) := by
  obtain ⟨h1, h2, h3⟩ := h
  have hlen : (l ++ [c]).length = l.length + 1 := by simp
  simp only [Fields.remainingIsDone, hn, h1, UInt8.le_iff_toNat_le, hi, decide_eq_true_eq, decide_eq_false_iff_not]
  by_cases hd : n.toNat ≤ l.length + 1
  · have hn256 := n.toNat_lt
    refine Or.inr ⟨hd, ⟨l ++ [c], by simp, by rw [hlen]; unfold maxLen; omega⟩, rfl, ?_⟩
    apply UInt8.toNat_inj.mp
    rw [name_toNat, hlen]; omega
  · exact Or.inl ⟨hd, hn.trans h1, hi.trans hlen.symm, by rw [hlen]; omega⟩

/-- The fields while the name is being read, and while the password is. -/
def unameFields (n : UInt8) (l : List UInt8) : Credentials := ⟨n, nameField l, 0, nameField []⟩
def passwdFields (uname : Name) (n : UInt8) (l : List UInt8) : Credentials :=
  ⟨uname.len, nameField uname.1, n, nameField l⟩

/-- The fields once both have been read. -/
def credentialsOf (uname passwd : Name) : Credentials := passwdFields uname passwd.len passwd.1

theorem fields_unamePart {p : Fields} {n : UInt8} {l : List UInt8} (h : NamePart n p l)
    (hf : p.credentials = unameFields n l) (c : UInt8) :
    (p.uname c).credentials = unameFields n (l ++ [c]) ∧ (p.uname c).n = p.n ∧
      (p.uname c).i.toNat = l.length + 1 := by
  obtain ⟨h1, h2⟩ := fields_uname (p := p) (l := l) (by rw [hf]; rfl) (by rw [hf]; rfl) h.2.1 (h.1 ▸ h.2.2) c
  rw [h1]
  exact ⟨by simp only [hf]; rfl, rfl, h2⟩

theorem fields_passwdPart {p : Fields} {uname : Name} {n : UInt8} {l : List UInt8} (h : NamePart n p l)
    (hf : p.credentials = passwdFields uname n l) (c : UInt8) :
    (p.passwd c).credentials = passwdFields uname n (l ++ [c]) ∧ (p.passwd c).n = p.n ∧
      (p.passwd c).i.toNat = l.length + 1 := by
  obtain ⟨h1, h2⟩ := fields_passwd (p := p) (l := l) (by rw [hf]; rfl) h.2.1 (h.1 ▸ h.2.2) c
  rw [h1]
  exact ⟨by simp only [hf]; rfl, rfl, h2⟩

/-! ## Names in fields -/

/-- The length and the first octets of a field are those of a name. -/
def HoldsName (len : UInt8) (field : List UInt8) (m : Name) : Prop := len = m.len ∧ field.take len.toNat = m.1

theorem take_nameField (m : Name) : (nameField m.1).take m.len.toNat = m.1 := by
  rw [name_toNat, nameField, List.take_left']
  rfl

theorem holdsName_nameField (m : Name) : HoldsName m.len (nameField m.1) m := ⟨rfl, take_nameField m⟩

theorem namePart_extends {n : UInt8} {p : Fields} {l : List UInt8} (h : NamePart n p l) :
    ∃ (m : Name) (c : UInt8) (r : List UInt8), m.1 = l ++ c :: r ∧ m.len = n := by
  obtain ⟨_, _, hlt⟩ := h
  have hn := n.toNat_lt
  obtain ⟨r, hlen⟩ : ∃ r : List UInt8, (l ++ 0 :: r).length = n.toNat := by
    refine ⟨List.replicate (n.toNat - l.length - 1) 0, ?_⟩
    simp only [List.length_append, List.length_cons, List.length_replicate]; omega
  have hle : (l ++ 0 :: r).length ≤ maxLen := by rw [hlen]; unfold maxLen; omega
  refine ⟨⟨l ++ 0 :: r, by simp, hle⟩, 0, r, rfl, ?_⟩
  rw [Name.len, hlen, UInt8.ofNat_toNat]

def oneOctet : Name := ⟨[0], by decide⟩

end SocksProxy
