import SocksProxy.UserList

/-!
# The linked list holds the users in order

`Linked` says that the nodes of the list hold given users, and that `size`
counts them. Each function of `UserList` then ends as the one of `UserUtils`
does on the users in order (`addUser_sim`, `deleteUser_sim`, `editUser_sim`,
`checkCredentials_sim`), or stops at an allocation that failed.
-/

namespace SocksProxy

open Lib

theorem strcmp_eq_zero {s t : List UInt8} : strcmp s t = 0 ↔ cString s = cString t := by
  induction s generalizing t with
  | nil =>
    cases t with
    | nil => simp [strcmp]
    | cons b t =>
      by_cases hb : b = 0
      · simp [strcmp, cString, hb]
      · have : b.toNat ≠ 0 := fun h => hb (UInt8.toNat_inj.mp h)
        simpa [strcmp, cString, hb] using this
  | cons a s ih =>
    cases t with
    | nil =>
      by_cases ha : a = 0
      · simp [strcmp, cString, ha]
      · have : a.toNat ≠ 0 := fun h => ha (UInt8.toNat_inj.mp h)
        simpa [strcmp, cString, ha] using this
    | cons b t =>
      by_cases hab : a = b
      · subst hab
        by_cases ha : a = 0
        · simp [strcmp, cString, ha]
        · simp only [strcmp, ha, ne_eq, not_false_eq_true, and_self, if_true, ih]
          simp [cString, ha]
      · have hne : (a.toNat : Int) - b.toNat ≠ 0 := by
          intro h
          exact hab (UInt8.toNat_inj.mp (by omega))
        simp only [strcmp, hab, false_and, if_false, hne, false_iff]
        by_cases ha : a = 0
        · have hb : b ≠ 0 := fun hb => hab (ha.trans hb.symm)
          simp [cString, ha, hb]
        · by_cases hb : b = 0
          · simp [cString, ha, hb]
          · simp [cString, ha, hb, hab]

theorem readNode_ok {nodes : Nodes} {p : Nat} {node : Cell Nat User} (h : nodes.lookup p = some node) :
    readNode nodes p = .ok node := by
  simp only [readNode, h]

namespace UserList

/-- The nodes hold `l`: addresses and users. -/
structure Linked (list : UserList) (l : List (Nat × User)) : Prop where
  chain : Chain list.nodes list.first l
  size : list.size = l.length

def usersOf (l : List (Nat × User)) : List User := l.map Prod.snd

def heapOf (mem : Memory) (l : List (Nat × User)) : Heap := mem.heap (l.map Prod.fst)

@[simp] theorem usersOf_cons (a : Nat × User) (l : List (Nat × User)) : usersOf (a :: l) = a.2 :: usersOf l := rfl

@[simp] theorem heapOf_tail (mem : Memory) (a : Nat × User) (l : List (Nat × User)) :
    (heapOf mem (a :: l)).tail = heapOf mem l := rfl

@[simp] theorem heapOf_username (mem : Memory) (a : Nat × User) (l : List (Nat × User)) :
    a.2.usernameString (heapOf mem (a :: l)) = cString (mem.username a.1 a.2) := rfl

@[simp] theorem heapOf_password (mem : Memory) (a : Nat × User) (l : List (Nat × User)) :
    a.2.passwordString (heapOf mem (a :: l)) = cString (mem.password a.1 a.2) := rfl

theorem addUser_length {h : Heap} {users : List User} {username password : List UInt8} {ulen plen : UInt8}
    {admin : Bool} :
    (SocksProxy.addUser h users username ulen password plen admin).1.length =
      users.length + (SocksProxy.addUser h users username ulen password plen admin).2.toNat := by
  unfold SocksProxy.addUser
  induction users generalizing h with
  | nil => rfl
  | cons first next ih =>
    simp only [SocksProxy.addUserRec]
    split
    · rfl
    · simp only [List.length_cons, ih]; omega

section
variable (mem : Memory) (username : List UInt8) (ulen : UInt8) (password : List UInt8) (plen : UInt8) (admin : Bool)
variable {nodes : Nodes} {p : Option Nat} {l : List (Nat × User)} {list : UserList}

/-! ## `add_user` -/

/-- The nodes outside the list stay, and none of them gets into it. -/
theorem addUserRec_sim {n : Nat} (h : Chain nodes p l) (hn : l.length < n) :
    let r := SocksProxy.addUserRec username ulen password plen admin (heapOf mem l) (usersOf l)
    (mem.allocates = false ∧ r.2 = true ∧
      addUserRec mem username ulen password plen admin n nodes p = .error .refused) ∨
    ∃ nodes' p' l', addUserRec mem username ulen password plen admin n nodes p = .ok (nodes', p', r.2) ∧
      Chain nodes' p' l' ∧ usersOf l' = r.1 ∧
      ∀ i ∈ nodes, i ∉ l.map Prod.fst → i ∉ l'.map Prod.fst ∧ nodes'.lookup i = nodes.lookup i := by
  intro r
  induction l generalizing nodes p n with
  | nil =>
    obtain ⟨n, rfl⟩ : ∃ m, n = m + 1 := ⟨n - 1, by simp at hn; omega⟩
    rw [chain_nil] at h; subst h
    -- the end of the list: a node for the new user, if there is memory
    cases ha : mem.allocates with
    | false =>
      apply Or.inl
      exact ⟨rfl, rfl, by simp [addUserRec, ha]⟩
    | true =>
      apply Or.inr
      have hnew := (mem.malloc nodes).property
      refine ⟨_, _, [((mem.malloc nodes).val, newUser username ulen password plen admin)],
        by simp only [addUserRec, ha, if_true]; rfl, chain_cons _ (List.not_mem_nil) rfl, rfl, ?_⟩
      intro i hi _
      have hne : i ≠ (mem.malloc nodes).val := ne_of_mem_of_not_mem hi hnew
      exact ⟨by simpa using hne, Finmap.lookup_insert_of_ne _ hne⟩
  | cons a l ih =>
    obtain ⟨n, rfl⟩ : ∃ m, n = m + 1 := ⟨n - 1, by simp at hn; omega⟩
    have hfirst := (chain_not_mem (l := []) h).2
    have hmem := segment_mem h (List.mem_cons_self)
    obtain ⟨rfl, next, hl, hc⟩ := h
    -- a name that is there ends the recursion, and nothing is written
    by_cases hs : cString (mem.username a.1 a.2) = cString username
    · have hr : r = (usersOf (a :: l), false) := by
        simp only [r, usersOf_cons, SocksProxy.addUserRec, heapOf_username, hs, if_true]
      apply Or.inr
      refine ⟨nodes, some a.1, a :: l, ?_, ⟨rfl, next, hl, hc⟩, by rw [hr], fun i _ hi => ⟨hi, rfl⟩⟩
      simp only [addUserRec, readNode_ok hl, hr, bind, Except.bind, pure, Except.pure]
      rw [if_pos (strcmp_eq_zero.mpr hs)]
    · have hr : r = (a.2 :: (SocksProxy.addUserRec username ulen password plen admin (heapOf mem l) (usersOf l)).1,
          (SocksProxy.addUserRec username ulen password plen admin (heapOf mem l) (usersOf l)).2) := by
        simp only [r, usersOf_cons, SocksProxy.addUserRec, heapOf_username, hs, if_false, heapOf_tail]
      have hz : strcmp (mem.username a.1 a.2) username ≠ 0 := fun hz => hs (strcmp_eq_zero.mp hz)
      rcases ih (n := n) hc (by simp at hn; omega) with ⟨ha, hadd, he⟩ | ⟨nodes', p', l', he, hc', hu, hf⟩
      · apply Or.inl
        refine ⟨ha, by rw [hr]; exact hadd, ?_⟩
        simp only [addUserRec, readNode_ok hl, bind, Except.bind, pure, Except.pure]
        rw [if_neg hz]
        simp only [he]
      · apply Or.inr
        obtain ⟨hnot, hlook⟩ := hf a.1 hmem hfirst
        rw [hl] at hlook
        refine ⟨_, _, a :: l', ?_, chain_cons a.2 hnot hc', by rw [hr, usersOf_cons, hu], ?_⟩
        · simp only [addUserRec, readNode_ok hl, bind, Except.bind, pure, Except.pure]
          rw [if_neg hz]
          simp only [he, readNode_ok hlook, hr]
        · intro i hi hil
          simp only [List.map_cons, List.mem_cons, not_or] at hil ⊢
          obtain ⟨hi', hlook'⟩ := hf i hi hil.2
          exact ⟨⟨hil.1, hi'⟩, by rw [Finmap.lookup_insert_of_ne _ hil.1, hlook']⟩

theorem addUser_sim (h : Linked list l) :
    let r := SocksProxy.addUser (heapOf mem l) (usersOf l) username ulen password plen admin
    (r.2 = true ∧ (mem.allocates = false ∧ addUser mem username ulen password plen admin list = .error .refused ∨
      list.size = intMax ∧ addUser mem username ulen password plen admin list = .error .overflow)) ∨
    ∃ list' l', addUser mem username ulen password plen admin list = .ok (list', r.2) ∧ Linked list' l' ∧
      usersOf l' = r.1 := by
  intro r
  have hn := Nat.lt_succ_of_le (chain_length_le h.chain)
  rcases addUserRec_sim mem username ulen password plen admin h.chain hn with
    ⟨ha, hr, he⟩ | ⟨nodes', p', l', he, hc, hu, _⟩
  · exact Or.inl ⟨hr, Or.inl ⟨ha, by simp only [addUser, he, bind, Except.bind]⟩⟩
  · change usersOf l' = r.1 at hu
    have hlen : l'.length = r.1.length := by
      rw [← hu]; exact (List.length_map _).symm
    have hlist : l.length = (usersOf l).length := (List.length_map _).symm
    have hr : (SocksProxy.addUserRec username ulen password plen admin (heapOf mem l) (usersOf l)).2 = r.2 := rfl
    cases hadd : r.2 with
    | false =>
      apply Or.inr
      refine ⟨⟨p', list.size, nodes'⟩, l', ?_, ⟨hc, ?_⟩, hu⟩
      · simp only [addUser, he, bind, Except.bind, hr, hadd]; rfl
      · rw [h.size, hlen, addUser_length, hadd, hlist]; rfl
    | true =>
      by_cases hm : list.size = intMax
      · apply Or.inl
        refine ⟨rfl, Or.inr ⟨hm, ?_⟩⟩
        simp only [addUser, he, bind, Except.bind, hr, hadd, if_true, hm]; rfl
      · apply Or.inr
        refine ⟨⟨p', list.size + 1, nodes'⟩, l', ?_, ⟨hc, ?_⟩, hu⟩
        · simp only [addUser, he, bind, Except.bind, hr, hadd, if_true, hm, if_false]; rfl
        · rw [hlen, addUser_length, hadd, ← hlist, h.size]; rfl

/-! ## The loop of `delete_user` and `edit_user` -/

/-- The node has this name. -/
def Named (a : Nat × User) : Prop := cString (mem.username a.1 a.2) = cString username

/-- The loop runs to the end if no node has the name, and else stops at the
first one that has it, with the one before it in `prev`. -/
theorem searchLoop_spec {n : Nat} {c : Int} (prev : Option Nat) (h : Chain nodes p l) (hn : l.length < n)
    (hc : c ≠ 0) :
    ((∀ a ∈ l, ¬ Named mem username a) ∧
      ∃ prev' c', searchLoop mem username nodes n prev p c = .ok (prev', none, c') ∧ c' ≠ 0) ∨
    ∃ s a t, l = s ++ a :: t ∧ (∀ b ∈ s, ¬ Named mem username b) ∧ Named mem username a ∧
      searchLoop mem username nodes n prev p c = .ok ((s.getLast?.map Prod.fst).or prev, some a.1, 0) := by
  induction l generalizing p n prev c with
  | nil =>
    obtain ⟨n, rfl⟩ : ∃ m, n = m + 1 := ⟨n - 1, by simp at hn; omega⟩
    rw [chain_nil] at h; subst h
    apply Or.inl
    exact ⟨by simp, prev, c, by simp only [searchLoop], hc⟩
  | cons a l ih =>
    obtain ⟨n, rfl⟩ : ∃ m, n = m + 1 + 1 := ⟨n - 2, by simp at hn; omega⟩
    obtain ⟨rfl, next, hl, hch⟩ := h
    by_cases hs : Named mem username a
    · have hz := strcmp_eq_zero.mpr hs
      apply Or.inr
      refine ⟨[], a, l, rfl, by simp, hs, ?_⟩
      simp only [searchLoop, if_neg hc, readNode_ok hl, bind, Except.bind, hz, ne_eq, not_true, if_false, if_true]
      rfl
    · have hz : strcmp (mem.username a.1 a.2) username ≠ 0 := fun hz => hs (strcmp_eq_zero.mp hz)
      have hstep : searchLoop mem username nodes (n + 1 + 1) prev (some a.1) c =
          searchLoop mem username nodes (n + 1) (some a.1) next (strcmp (mem.username a.1 a.2) username) := by
        rw [searchLoop]
        simp only [if_neg hc, readNode_ok hl, bind, Except.bind, if_pos hz]
      rw [hstep]
      rcases ih (n := n + 1) (some a.1) hch (by simp at hn; omega) hz with
        ⟨hno, prev', c', he, hc'⟩ | ⟨s, b, t, rfl, hno, hb, he⟩
      · apply Or.inl
        refine ⟨?_, prev', c', he, hc'⟩
        intro b hb
        rcases List.mem_cons.mp hb with rfl | hb
        · exact hs
        · exact hno b hb
      · apply Or.inr
        refine ⟨a :: s, b, t, rfl, ?_, hb, ?_⟩
        · intro d hd
          rcases List.mem_cons.mp hd with rfl | hd
          · exact hs
          · exact hno d hd
        · rw [he]
          cases s with
          | nil => rfl
          | cons d s =>
            have hlast := List.getLast?_eq_some_getLast (List.cons_ne_nil d s)
            simp [List.getLast?_cons_cons, hlast]

theorem search_spec (h : Linked list l) :
    ((∀ a ∈ l, ¬ Named mem username a) ∧ ∃ prev c, search mem username list = .ok (prev, none, c) ∧ c ≠ 0) ∨
    ∃ s a t, l = s ++ a :: t ∧ (∀ b ∈ s, ¬ Named mem username b) ∧ Named mem username a ∧
      search mem username list = .ok ((s.getLast?.map Prod.fst).or list.first, some a.1, 0) :=
  searchLoop_spec mem username list.first h.chain (Nat.lt_succ_of_le (chain_length_le h.chain)) (by decide)

/-! ## `delete_user` and `edit_user` -/

theorem deleteUser_absent (h : ∀ a ∈ l, ¬ Named mem username a) :
    SocksProxy.deleteUser (heapOf mem l) (usersOf l) username = (usersOf l, false) := by
  induction l with
  | nil => rfl
  | cons a l ih =>
    obtain ⟨ha, hl⟩ := List.forall_mem_cons.mp h
    unfold Named at ha
    simp only [usersOf_cons, SocksProxy.deleteUser, heapOf_username, ha, if_false, heapOf_tail, ih hl]

theorem deleteUser_found {s t : List (Nat × User)} {a : Nat × User} (hs : ∀ b ∈ s, ¬ Named mem username b)
    (ha : Named mem username a) :
    SocksProxy.deleteUser (heapOf mem (s ++ a :: t)) (usersOf (s ++ a :: t)) username =
      (usersOf (s ++ t), true) := by
  induction s with
  | nil =>
    unfold Named at ha
    simp only [List.nil_append, usersOf_cons, SocksProxy.deleteUser, heapOf_username, ha, if_true]
  | cons b s ih =>
    obtain ⟨hb, hs⟩ := List.forall_mem_cons.mp hs
    unfold Named at hb
    simp only [List.cons_append, usersOf_cons, SocksProxy.deleteUser, heapOf_username, hb, if_false, heapOf_tail,
      ih hs]

theorem editUser_absent (h : ∀ a ∈ l, ¬ Named mem username a) :
    SocksProxy.editUser (heapOf mem l) (usersOf l) username password plen = (usersOf l, false) := by
  induction l with
  | nil => rfl
  | cons a l ih =>
    obtain ⟨ha, hl⟩ := List.forall_mem_cons.mp h
    unfold Named at ha
    simp only [usersOf_cons, SocksProxy.editUser, heapOf_username, ha, if_false, heapOf_tail, ih hl]

theorem newPassword_heap (user : User) :
    newPassword (heapOf mem l) user password plen = newPassword (mem.heap []) user password plen := rfl

theorem editUser_found {s t : List (Nat × User)} {a : Nat × User} (hs : ∀ b ∈ s, ¬ Named mem username b)
    (ha : Named mem username a) :
    SocksProxy.editUser (heapOf mem (s ++ a :: t)) (usersOf (s ++ a :: t)) username password plen =
      (usersOf (s ++ (a.1, newPassword (mem.heap []) a.2 password plen) :: t), true) := by
  induction s with
  | nil =>
    unfold Named at ha
    simp only [List.nil_append, usersOf_cons, SocksProxy.editUser, heapOf_username, ha, if_true, newPassword_heap]
  | cons b s ih =>
    obtain ⟨hb, hs⟩ := List.forall_mem_cons.mp hs
    unfold Named at hb
    simp only [List.cons_append, usersOf_cons, SocksProxy.editUser, heapOf_username, hb, if_false, heapOf_tail,
      ih hs]

theorem deleteUser_sim (h : Linked list l) :
    let r := SocksProxy.deleteUser (heapOf mem l) (usersOf l) username
    ∃ list' l', deleteUser mem username list = .ok (list', r.2) ∧ Linked list' l' ∧ usersOf l' = r.1 := by
  intro r
  rcases search_spec mem username h with ⟨hno, prev, c, he, hc⟩ | ⟨s, a, t, rfl, hno, ha, he⟩
  · have hr : r = (usersOf l, false) := deleteUser_absent mem username hno
    refine ⟨list, l, ?_, h, by rw [hr]⟩
    simp only [deleteUser, he, bind, Except.bind, ne_eq, hc, not_false_eq_true, if_true, hr]
    rfl
  · have hr : r = (usersOf (s ++ t), true) := deleteUser_found mem username hno ha
    obtain ⟨next, hn, hct⟩ := chain_lookup h.chain
    have hsize : list.size - 1 = (s ++ t).length := by
      have := h.size
      simp only [List.length_append, List.length_cons] at this ⊢
      omega
    rcases List.eq_nil_or_concat s with rfl | ⟨s, b, rfl⟩
    · have hfirst : list.first = some a.1 := h.chain.1
      refine ⟨⟨next, list.size - 1, list.nodes.erase a.1⟩, t, ?_, ⟨chain_tail h.chain hn, hsize⟩, by rw [hr]; rfl⟩
      simp only [deleteUser, he, bind, Except.bind, readNode_ok hn, hfirst, hr]
      rfl
    · have hchain : Chain list.nodes list.first (s ++ b :: a :: t) := by simpa using h.chain
      have hab : some a.1 ≠ list.first := Ne.symm (chain_first_ne h.chain (by simp))
      have hba : b.1 ≠ a.1 := by
        intro hba
        exact (chain_not_mem h.chain).1 (by simp [hba])
      obtain ⟨nextb, hnb, _⟩ := chain_lookup hchain
      have hnb : (list.nodes.erase a.1).lookup b.1 = some ⟨b.2, nextb⟩ := by
        rw [Finmap.lookup_erase_ne hba, hnb]
      have hchain' := chain_unlink hchain hn
      refine ⟨⟨list.first, list.size - 1, (list.nodes.erase a.1).insert b.1 ⟨b.2, next⟩⟩, s ++ b :: t, ?_,
        ⟨hchain', by simpa using hsize⟩, by rw [hr]; simp⟩
      simp only [deleteUser, he, bind, Except.bind, readNode_ok hn, hr, if_neg hab]
      simp only [List.concat_eq_append, List.getLast?_concat, Option.map_some, Option.some_or, readNode_ok hnb]
      rfl

theorem editUser_sim (h : Linked list l) :
    let r := SocksProxy.editUser (heapOf mem l) (usersOf l) username password plen
    (r.2 = true ∧ mem.allocates = false ∧ editUser mem username password plen list = .error .refused) ∨
    ∃ list' l', editUser mem username password plen list = .ok (list', r.2) ∧ Linked list' l' ∧
      usersOf l' = r.1 := by
  intro r
  rcases search_spec mem username h with ⟨hno, prev, c, he, hc⟩ | ⟨s, a, t, rfl, hno, ha, he⟩
  · have hr : r = (usersOf l, false) := editUser_absent mem username password plen hno
    apply Or.inr
    refine ⟨list, l, ?_, h, by rw [hr]⟩
    simp only [editUser, he, bind, Except.bind, ne_eq, hc, not_false_eq_true, if_true, hr]
    rfl
  · have hr := editUser_found mem username password plen (t := t) hno ha
    change r = _ at hr
    obtain ⟨next, hn, _⟩ := chain_lookup h.chain
    have hz := strcmp_eq_zero.mpr ha
    cases hall : mem.allocates with
    | false =>
      apply Or.inl
      refine ⟨by rw [hr], rfl, ?_⟩
      simp only [editUser, he, bind, Except.bind, readNode_ok hn, if_pos hz, hall]
      rfl
    | true =>
      apply Or.inr
      have hchain := chain_set (newPassword (mem.heap []) a.2 password plen) h.chain hn
      refine ⟨{ list with nodes := list.nodes.insert a.1 ⟨newPassword (mem.heap []) a.2 password plen, next⟩ }, _,
        ?_, ⟨hchain, ?_⟩, by rw [hr]⟩
      · simp only [editUser, he, bind, Except.bind, readNode_ok hn, if_pos hz, hall, hr]
        rfl
      · simpa using h.size

/-! ## `user_check_credentials` -/

theorem checkLoop_sim {n : Nat} (h : Chain nodes p l) (hn : l.length < n) :
    checkLoop mem username password nodes n p =
      .ok (SocksProxy.userCheckCredentials (heapOf mem l) (usersOf l) username password) := by
  induction l generalizing p n with
  | nil =>
    obtain ⟨n, rfl⟩ : ∃ m, n = m + 1 := ⟨n - 1, by simp at hn; omega⟩
    rw [chain_nil] at h; subst h
    rfl
  | cons a l ih =>
    obtain ⟨n, rfl⟩ : ∃ m, n = m + 1 := ⟨n - 1, by simp at hn; omega⟩
    obtain ⟨rfl, next, hl, hc⟩ := h
    have hm : (strcmp username (mem.username a.1 a.2) = 0 ∧ strcmp password (mem.password a.1 a.2) = 0 ∧
        a.2.isAdmin = true) ↔ a.2.Matches (heapOf mem (a :: l)) username password := by
      simp only [strcmp_eq_zero, User.Matches, heapOf_username, heapOf_password]
    simp only [checkLoop, readNode_ok hl, bind, Except.bind, usersOf_cons, SocksProxy.userCheckCredentials, hm]
    split
    · rfl
    · exact ih hc (by simp at hn; omega)

theorem checkCredentials_sim (h : Linked list l) :
    userCheckCredentials mem username password list =
      .ok (SocksProxy.userCheckCredentials (heapOf mem l) (usersOf l) username password) :=
  checkLoop_sim mem username password h.chain (Nat.lt_succ_of_le (chain_length_le h.chain))

end

end UserList

end SocksProxy
