import SocksProxy.Client
import SocksProxy.CommandSound

/-!
# What the client sends is read

The messages of `add_new_user`, `remove_user` and `modify_user` are filled from
the left without a gap, and are the commands with the terminated name and
password; the parser of the server is done at their last byte.
-/

namespace SocksProxy

open Lib Client

/-- A name or a password that can be typed: `scanf` reads it whole into its buffer. -/
abbrev Typed := { l : List UInt8 // l ≠ [] ∧ l.length ≤ 254 ∧ ∀ c ∈ l, c ≠ 0 ∧ isSpace c = false }

theorem typed_fits (w : Typed) : w.1 ++ [0] ≠ [] ∧ (w.1 ++ [0]).length ≤ maxLen := by
  have hlen := w.2.2.1
  refine ⟨by simp, ?_⟩
  simp only [List.length_append, List.length_singleton, maxLen]
  omega

/-- The name with its terminator, as the client sends it. -/
def Typed.terminated (w : Typed) : Name := ⟨w.1 ++ [0], typed_fits w⟩

theorem typed_noNul (w : Typed) : 0 ∉ w.1 := fun h => (w.2.2.2 0 h).1 rfl

theorem length_typed (w : Typed) : w.terminated.1.length = w.1.length + 1 := by
  simp [Typed.terminated]

theorem cString_typed (w : Typed) : cString w.terminated.1 = w.1 := cString_of_noNul (typed_noNul w) []

/-! ## Filling a block -/

/-- A block of `n` octets that has been filled with `a` from the left. -/
def Filled (n : Nat) (a block : List UInt8) : Prop := block.length = n ∧ block.take a.length = a

theorem filled_nil (content : Nat → UInt8) (n : Nat) : Filled n [] (uninitialised content n) := by
  simp [Filled, uninitialised]

theorem filled_put {n i : Nat} {a block : List UInt8} (h : Filled n a block) (hi : i = a.length) {l : List UInt8}
    (hn : a.length + l.length ≤ n) : ∃ block', put block i l = .ok block' ∧ Filled n (a ++ l) block' := by
  subst hi
  obtain ⟨hlen, ha⟩ := h
  have hle : a.length + l.length ≤ block.length := by rw [hlen]; exact hn
  refine ⟨_, if_pos hle, ?_, ?_⟩
  · rw [length_store l (by omega), hlen]
  · rw [List.length_append, store_written hle, ha]

theorem ok_bind {α β : Type} (a : α) (k : α → Except ClientStop β) : (Except.ok a >>= k) = k a := rfl

theorem filled_bind {n i : Nat} {a block l : List UInt8} {k : List UInt8 → Except ClientStop (List UInt8)}
    {m : Except ClientStop (List UInt8)} (h : Filled n a block) (hi : i = a.length) (hn : a.length + l.length ≤ n)
    (hk : ∀ block', Filled n (a ++ l) block' → k block' = m) : (put block i l >>= k) = m := by
  obtain ⟨block', he, h'⟩ := filled_put h hi hn
  rw [he]
  exact hk block' h'

theorem filled_last {n i : Nat} {a block l : List UInt8} (h : Filled n a block) (hi : i = a.length)
    (hn : a.length + l.length = n) : put block i l = .ok (a ++ l) := by
  obtain ⟨block', he, hlen, hall⟩ := filled_put h hi (Nat.le_of_eq hn)
  rw [he]
  rw [List.take_of_length_le (by rw [List.length_append]; omega)] at hall
  rw [hall]

/-! ## Reading a word -/

theorem takeWhile_word {p : UInt8 → Bool} {l r : List UInt8} {c : UInt8} (hl : ∀ x ∈ l, p x = true)
    (hc : p c = false) :
    (l ++ c :: r).takeWhile p = l ∧ (l ++ c :: r).dropWhile p = c :: r := by
  constructor
  · rw [List.takeWhile_append_of_pos hl, List.takeWhile_cons_of_neg (by rw [hc]; exact Bool.false_ne_true),
      List.append_nil]
  · rw [List.dropWhile_append_of_pos hl, List.dropWhile_cons_of_neg (by rw [hc]; exact Bool.false_ne_true)]

/-- `scanf` reads a word that is typed after blanks. -/
theorem scanf_word {content : Nat → UInt8} (blanks : List UInt8) {r : List UInt8} {sep : UInt8} (w : Typed)
    (hb : ∀ c ∈ blanks, isSpace c = true) (hsep : isSpace sep = true) :
    ∃ buffer, scanf (uninitialised content credentialsSize) (blanks ++ (w.1 ++ sep :: r)) = .ok (buffer, sep :: r) ∧
      cString buffer = w.1 := by
  have hblanks : (blanks ++ (w.1 ++ sep :: r)).dropWhile isSpace = w.1 ++ sep :: r := by
    rw [List.dropWhile_append_of_pos hb]
    obtain ⟨c, l, hl⟩ := List.exists_cons_of_ne_nil w.2.1
    have hc : isSpace c = false := (w.2.2.2 c (by rw [hl]; exact List.mem_cons_self)).2
    rw [hl, List.cons_append, List.dropWhile_cons_of_neg (by rw [hc]; exact Bool.false_ne_true)]
  obtain ⟨htake, hdrop⟩ := takeWhile_word (p := fun c => !isSpace c) (r := r)
    (fun c hc => by rw [(w.2.2.2 c hc).2]; rfl) (by rw [hsep]; rfl)
  have hfit : ([] : List UInt8).length + (w.1 ++ [0]).length ≤ credentialsSize := by
    have := w.2.2.1
    simp only [List.length_nil, List.length_append, List.length_singleton, credentialsSize]; omega
  obtain ⟨buffer, hput, -, hfilled⟩ := filled_put (filled_nil content credentialsSize) rfl hfit
  refine ⟨buffer, ?_, ?_⟩
  · simp only [scanf, hblanks, htake, hdrop, w.2.1, if_false, List.length_nil] at hput ⊢
    rw [hput]
    rfl
  · have hsplit := List.take_append_drop ([] ++ (w.1 ++ [0])).length buffer
    rw [hfilled, List.nil_append, List.append_assoc] at hsplit
    rw [← hsplit]
    exact cString_of_noNul (typed_noNul w) _

/-! ## The messages -/

abbrev Blank := { c : UInt8 // isSpace c = true }

/-- What is typed at the prompts: a name and a password, with blanks before and between. -/
def typedInput (blanks : List Blank) (name : Typed) (sep : Blank) (password : Typed) (sep' : Blank)
    (r : List UInt8) :
    List UInt8 :=
  blanks.map Subtype.val ++ (name.1 ++ sep.1 :: (password.1 ++ sep'.1 :: r))

section
variable (mem : MessageMemory) (blanks : List Blank) (name password : Typed) (sep sep' : Blank) (r : List UInt8)

theorem scanf_name : ∃ buffer,
    scanf (uninitialised mem.nameBuffer credentialsSize) (typedInput blanks name sep password sep' r) =
        .ok (buffer, sep.1 :: (password.1 ++ sep'.1 :: r)) ∧ cString buffer = name.1 := by
  apply scanf_word _ name
  · intro c hc
    obtain ⟨b, _, rfl⟩ := List.mem_map.mp hc
    exact b.2
  · exact sep.2

theorem scanf_password : ∃ buffer,
    scanf (uninitialised mem.passwordBuffer credentialsSize) (sep.1 :: (password.1 ++ sep'.1 :: r)) =
        .ok (buffer, sep'.1 :: r) ∧ cString buffer = password.1 := by
  apply scanf_word [sep.1] password
  · intro c hc
    rw [List.mem_singleton.mp hc]
    exact sep.2
  · exact sep'.2

theorem addNewUser_encode (admin : Bool) :
    addNewUser mem admin (typedInput blanks name sep password sep' r) =
      .ok (Command.create admin name.terminated password.terminated).encode := by
  obtain ⟨nameBuffer, hname, hn⟩ := scanf_name mem blanks name password sep sep' r
  obtain ⟨passwordBuffer, hpassword, hp⟩ := scanf_password mem password sep sep' r
  simp only [addNewUser, hname, ok_bind, hpassword, strcpy, hn, hp]
  refine filled_bind (filled_nil _ _) rfl (by simp; omega) fun m1 h1 => ?_
  refine filled_bind h1 (by simp) (by simp; omega) fun m2 h2 => ?_
  refine filled_bind h2 (by simp) (by simp; omega) fun m3 h3 => ?_
  refine filled_bind h3 (by simp) (by simp; omega) fun m4 h4 => ?_
  refine filled_bind h4 (by simp) (by simp; omega) fun m5 h5 => ?_
  refine filled_bind h5 (by simp; omega) (by simp; omega) fun m6 h6 => ?_
  rw [filled_last h6 (by simp) (by simp; omega)]
  simp [Command.encode, adminOctet, Typed.terminated, Name.len]

theorem modifyUser_encode :
    modifyUser mem (typedInput blanks name sep password sep' r) =
      .ok (Command.edit name.terminated password.terminated).encode := by
  obtain ⟨nameBuffer, hname, hn⟩ := scanf_name mem blanks name password sep sep' r
  obtain ⟨passwordBuffer, hpassword, hp⟩ := scanf_password mem password sep sep' r
  simp only [modifyUser, hname, ok_bind, hpassword, strcpy, hn, hp]
  refine filled_bind (filled_nil _ _) rfl (by simp; omega) fun m1 h1 => ?_
  refine filled_bind h1 (by simp) (by simp; omega) fun m2 h2 => ?_
  refine filled_bind h2 (by simp) (by simp; omega) fun m3 h3 => ?_
  refine filled_bind h3 (by simp) (by simp; omega) fun m4 h4 => ?_
  refine filled_bind h4 (by simp; omega) (by simp; omega) fun m5 h5 => ?_
  rw [filled_last h5 (by simp) (by simp; omega)]
  simp [Command.encode, Typed.terminated, Name.len]

theorem removeUser_encode :
    removeUser mem (typedInput blanks name sep password sep' r) = .ok (Command.delete name.terminated).encode := by
  obtain ⟨nameBuffer, hname, hn⟩ := scanf_name mem blanks name password sep sep' r
  simp only [removeUser, hname, ok_bind, strcpy, hn]
  refine filled_bind (filled_nil _ _) rfl (by simp; omega) fun m1 h1 => ?_
  refine filled_bind h1 (by simp) (by simp; omega) fun m2 h2 => ?_
  refine filled_bind h2 (by simp) (by simp; omega) fun m3 h3 => ?_
  rw [filled_last h3 (by simp) (by simp; omega)]
  simp [Command.encode, Typed.terminated, Name.len]

end

/-! ## At the server -/

/-- The parser is done at the last byte of the message, and not before. -/
def DoneAtEnd (p : PrawtosParser) (l : List UInt8) : Prop :=
  (∀ u c r, l = u ++ c :: r → prawtosStops (feedAll prawtosParserFeed (prawtosParserInit p) u) = false) ∧
    (feedAll prawtosParserFeed (prawtosParserInit p) l).state = .parserDone

theorem message_doneAtEnd (p : PrawtosParser) (m : Message) : DoneAtEnd p m.encode := by
  have hrec := prawtosParser_recognises p
  constructor
  · intro u c r hl
    have hu : Undone prawtosParserFeed prawtosStops (prawtosParserInit p) u := by
      rw [undone_iff hrec]
      exact ⟨c, r, m, hl.symm⟩
    exact undone_not_done rfl hu
  · rw [← isParserDone_iff]
    exact (word_stopsAt hrec ⟨m, rfl⟩).2

theorem command_doneAtEnd (p : PrawtosParser) (cmd : Command) : DoneAtEnd p cmd.encode :=
  message_doneAtEnd p (.command cmd)

/-- The name in the fields is the string that was typed. -/
def NamedBy (p : PrawtosParser) (w : Typed) : Prop :=
  cString p.credentials.unamePtr = w.1 ∧ p.credentials.ulen.toNat = w.1.length + 1

def PassedBy (p : PrawtosParser) (w : Typed) : Prop :=
  cString p.credentials.passwdPtr = w.1 ∧ p.credentials.plen.toNat = w.1.length + 1

theorem namedBy_of_field {p : PrawtosParser} {w : Typed} (hl : p.credentials.ulen = w.terminated.len)
    (hf : p.credentials.uname = nameField w.terminated.1) : NamedBy p w := by
  constructor
  · rw [Credentials.unamePtr, hf, cString_field (Or.inr (by simp [Typed.terminated])), cString_typed]
  · rw [hl, name_toNat, length_typed]

theorem passedBy_of_field {p : PrawtosParser} {w : Typed} (hl : p.credentials.plen = w.terminated.len)
    (hf : p.credentials.passwd = nameField w.terminated.1) : PassedBy p w := by
  constructor
  · rw [Credentials.passwdPtr, hf, cString_passwd w.terminated.2.2, cString_typed]
  · rw [hl, name_toNat, length_typed]

theorem namedBy_credentialsOf {p : PrawtosParser} {name password : Typed}
    (h : p.credentials = credentialsOf name.terminated password.terminated) :
    NamedBy p name ∧ PassedBy p password := by
  constructor
  · apply namedBy_of_field
    · rw [h]; rfl
    · rw [h]; rfl
  · apply passedBy_of_field
    · rw [h]; rfl
    · rw [h]; rfl

/-- Each of the three messages drives a parser that has been initialised to its
end, and leaves the command, and the name and the password that were typed. -/
theorem clientMessages_read (mem : MessageMemory) (p : PrawtosParser) (blanks : List Blank) (name password : Typed)
    (sep sep' : Blank) (r : List UInt8) :
    (∀ admin, ∃ l, addNewUser mem admin (typedInput blanks name sep password sep' r) = .ok l ∧ DoneAtEnd p l ∧
      let q := feedAll prawtosParserFeed (prawtosParserInit p) l
      q.type = 0x01 ∧ q.user.cmd = 0x00 ∧ q.user.admin = adminOctet admin ∧ NamedBy q name ∧ PassedBy q password) ∧
    (∃ l, removeUser mem (typedInput blanks name sep password sep' r) = .ok l ∧ DoneAtEnd p l ∧
      let q := feedAll prawtosParserFeed (prawtosParserInit p) l
      q.type = 0x01 ∧ q.user.cmd = 0x01 ∧ NamedBy q name) ∧
    (∃ l, modifyUser mem (typedInput blanks name sep password sep' r) = .ok l ∧ DoneAtEnd p l ∧
      let q := feedAll prawtosParserFeed (prawtosParserInit p) l
      q.type = 0x01 ∧ q.user.cmd = 0x02 ∧ NamedBy q name ∧ PassedBy q password) := by
  refine ⟨?_, ?_, ?_⟩
  · intro admin
    refine ⟨_, addNewUser_encode mem blanks name password sep sep' r admin, command_doneAtEnd p _, ?_⟩
    obtain ⟨ht, hu, hf⟩ := feedAll_encode p (.create admin name.terminated password.terminated)
    intro q
    exact ⟨ht, by rw [hu], by rw [hu], namedBy_credentialsOf hf⟩
  · refine ⟨_, removeUser_encode mem blanks name password sep sep' r, command_doneAtEnd p _, ?_⟩
    obtain ⟨ht, hu, hf⟩ := feedAll_encode p (.delete name.terminated)
    intro q
    refine ⟨ht, hu, namedBy_of_field ?_ ?_⟩
    · rw [hf]; rfl
    · rw [hf]; rfl
  · refine ⟨_, modifyUser_encode mem blanks name password sep sep' r, command_doneAtEnd p _, ?_⟩
    obtain ⟨ht, hu, hf⟩ := feedAll_encode p (.edit name.terminated password.terminated)
    intro q
    exact ⟨ht, hu, namedBy_credentialsOf hf⟩

end SocksProxy
