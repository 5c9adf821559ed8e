import SocksProxy.Lib.Recognise
import SocksProxy.Parser.Credentials
import SocksProxy.Parser.RequestParser

/-!
# The target of a request

The request parser recognises requests, except that for a name of length 0 it
takes one octet more: the test for the end of the name comes after a store.
-/

namespace SocksProxy

open Lib

/-- A request as it is sent; `field` is the address with the length octet of a name. -/
structure SocksRequest where
  cmd : UInt8
  rsv : UInt8
  atyp : UInt8
  field : List UInt8
  port : List UInt8

def SocksRequest.encode (m : SocksRequest) : List UInt8 := 0x05 :: m.cmd :: m.rsv :: m.atyp :: (m.field ++ m.port)

/-- The address field for a type, when the name behind the length octet `n` has `need n` octets. -/
inductive AddrField (need : UInt8 → Nat) : UInt8 → List UInt8 → Prop
  | ipv4 {a : List UInt8} (h : a.length = 4) : AddrField need socksAddrTypeIpv4 a
  | ipv6 {a : List UInt8} (h : a.length = 16) : AddrField need socksAddrTypeIpv6 a
  | domain {n : UInt8} {a : List UInt8} (h : a.length = need n) : AddrField need socksAddrTypeDomain (n :: a)

def requests (need : UInt8 → Nat) : Set (List UInt8) :=
  fun l => ∃ m : SocksRequest, AddrField need m.atyp m.field ∧ m.port.length = 2 ∧ l = m.encode

/-- What the parser has stored of a request; in `fdqn` nothing follows the name. -/
structure SocksRequest.Stored (m : SocksRequest) (r : Request) : Prop where
  cmd : r.cmd = m.cmd
  atyp : r.destAddrType = m.atyp
  ipv4 : m.atyp = socksAddrTypeIpv4 → r.destAddr.ipv4.addr = m.field
  ipv6 : m.atyp = socksAddrTypeIpv6 → r.destAddr.ipv6.addr = m.field
  fdqn : m.atyp = socksAddrTypeDomain → FilledTo 255 m.field.tail r.destAddr.fdqn
  port : r.destPort = m.port

/-- How many octets the parser takes for a name. -/
def taken (n : UInt8) : Nat := max 1 n.toNat

/-! ## The bytes so far -/

/-- The octets `a` of an address that takes `k` have been stored. -/
inductive AddrPart (atyp : UInt8) (addr : SocksAddr) : Nat → List UInt8 → List UInt8 → Prop
  | ipv4 {a : List UInt8} (ht : atyp = socksAddrTypeIpv4) (hf : FilledTo 4 a addr.ipv4.addr) :
      AddrPart atyp addr 4 [] a
  | ipv6 {a : List UInt8} (ht : atyp = socksAddrTypeIpv6) (hf : FilledTo 16 a addr.ipv6.addr) :
    AddrPart atyp addr 16 [] a
  | domain {n : UInt8} {a : List UInt8} (ht : atyp = socksAddrTypeDomain) (hf : FilledTo 255 a addr.fdqn) :
    AddrPart atyp addr (taken n) [n] a

/-- What the parser knows after the bytes `l`. -/
def TargetRead (l : List UInt8) (p : RequestParser) : Prop :=
  match p.state with
  | .version => l = [] ∧ p.request = Request.zero
  | .cmd => l = [0x05] ∧ p.request = Request.zero
  | .rvs => l = [0x05, p.request.cmd] ∧ p.request = { Request.zero with cmd := p.request.cmd }
  | .atype => (∃ rsv, l = [0x05, p.request.cmd, rsv]) ∧ p.request = { Request.zero with cmd := p.request.cmd }
  | .dstaddrFqdn =>
    (∃ rsv, l = [0x05, p.request.cmd, rsv, socksAddrTypeDomain]) ∧ p.request.destAddrType = socksAddrTypeDomain ∧
      FilledTo 255 [] p.request.destAddr.fdqn
  | .dstaddr =>
    ∃ rsv h a, l = 0x05 :: p.request.cmd :: rsv :: p.request.destAddrType :: (h ++ a) ∧
      AddrPart p.request.destAddrType p.request.destAddr (taken p.n) h a ∧ p.i.toNat = a.length ∧
      a.length < taken p.n
  | .dstport =>
    ∃ rsv h a b, l = 0x05 :: p.request.cmd :: rsv :: p.request.destAddrType :: (h ++ a ++ b) ∧
      AddrPart p.request.destAddrType p.request.destAddr a.length h a ∧ p.i.toNat = b.length ∧ b.length < 2 ∧
        p.n = 2 ∧ FilledTo 2 b p.request.destPort
  | .done =>
    ∃ rsv h a, l = 0x05 :: p.request.cmd :: rsv :: p.request.destAddrType :: (h ++ a ++ p.request.destPort) ∧
      AddrPart p.request.destAddrType p.request.destAddr a.length h a ∧ p.request.destPort.length = 2
  | .error => False
  | .errorUnsupportedVersion => ∃ c, c ≠ 0x05 ∧ l = [c]
  | .errorUnsupportedAtype =>
    ∃ c rsv t, t ≠ socksAddrTypeIpv4 ∧ t ≠ socksAddrTypeIpv6 ∧ t ≠ socksAddrTypeDomain ∧ l = [0x05, c, rsv, t]

theorem taken_le (n : UInt8) : taken n ≤ 255 := by
  have := n.toNat_lt
  unfold taken; omega

theorem zero_lt_taken (n : UInt8) : 0 < taken n := Nat.lt_of_lt_of_le Nat.zero_lt_one (Nat.le_max_left _ _)

theorem targetRead_atype {l : List UInt8} {p : RequestParser} (h : TargetRead l p) (hs : p.state = .atype)
    (c : UInt8) :
    TargetRead (l ++ [c]) (p.atype c) := by
  simp only [TargetRead, hs] at h
  obtain ⟨⟨rsv, rfl⟩, hr⟩ := h
  unfold RequestParser.atype
  by_cases h4 : c = socksAddrTypeIpv4
  · subst h4
    exact ⟨rsv, [], [], rfl, .ipv4 rfl (filledTo_nil 4), rfl, zero_lt_taken _⟩
  · by_cases h6 : c = socksAddrTypeIpv6
    · subst h6
      exact ⟨rsv, [], [], rfl, .ipv6 rfl (filledTo_nil 16), rfl, zero_lt_taken _⟩
    · by_cases hd : c = socksAddrTypeDomain
      · subst hd
        refine ⟨⟨rsv, rfl⟩, rfl, ?_⟩
        show FilledTo 255 [] p.request.destAddr.fdqn
        rw [hr]
        exact filledTo_nil 255
      · simp only [h4, h6, hd, if_false]
        exact ⟨p.request.cmd, rsv, c, h4, h6, hd, rfl⟩

theorem targetRead_fqdn {l : List UInt8} {p : RequestParser} (h : TargetRead l p) (hs : p.state = .dstaddrFqdn)
    (c : UInt8) : TargetRead (l ++ [c]) (p.dstaddrFqdn c) := by
  simp only [TargetRead, hs] at h
  obtain ⟨⟨rsv, rfl⟩, ht, hf⟩ := h
  have hzero : (p.dstaddrFqdn c).request.destAddr.fdqn = p.request.destAddr.fdqn := by
    simp only [RequestParser.dstaddrFqdn]
    split
    · rfl
    · rw [show p.request.destAddr.fdqn = List.replicate 255 0 from hf, List.set_replicate_self]
  refine ⟨rsv, [c], [], ?_, ?_, rfl, ?_⟩
  · rw [show (p.dstaddrFqdn c).request.destAddrType = p.request.destAddrType from rfl, ht]
    rfl
  · refine .domain ht ?_
    rw [hzero]
    exact hf
  · exact zero_lt_taken _

theorem addrPart_store {p : RequestParser} {k : Nat} {h a : List UInt8}
    (hp : AddrPart p.request.destAddrType p.request.destAddr k h a) (hi : p.i.toNat = a.length) (hk : a.length < k)
    (c : UInt8) :
    AddrPart p.request.destAddrType (p.storeAddr c).request.destAddr k h (a ++ [c]) ∧
      (p.storeAddr c).i = p.i + 1 ∧ (p.storeAddr c).n = p.n ∧
      (p.storeAddr c).request.cmd = p.request.cmd ∧
      (p.storeAddr c).request.destAddrType = p.request.destAddrType := by
  unfold RequestParser.storeAddr
  cases hp with
  | ipv4 ht hf =>
    rw [if_pos ht]
    refine ⟨.ipv4 ht ?_, rfl, rfl, rfl, rfl⟩
    simp only
    rw [hi]
    exact filledTo_set hf hk c
  | ipv6 ht hf =>
    have h4 : ¬ p.request.destAddrType = socksAddrTypeIpv4 := by rw [ht]; decide
    rw [if_neg h4, if_pos ht]
    refine ⟨.ipv6 ht ?_, rfl, rfl, rfl, rfl⟩
    simp only
    rw [hi]
    exact filledTo_set hf hk c
  | @domain n _ ht hf =>
    have h4 : ¬ p.request.destAddrType = socksAddrTypeIpv4 := by rw [ht]; decide
    have h6 : ¬ p.request.destAddrType = socksAddrTypeIpv6 := by rw [ht]; decide
    rw [if_neg h4, if_neg h6, if_pos ht]
    refine ⟨.domain ht ?_, rfl, rfl, rfl, rfl⟩
    simp only
    rw [hi]
    exact filledTo_set hf (Nat.lt_of_lt_of_le hk (taken_le n)) c

theorem targetRead_addr {l : List UInt8} {p : RequestParser} (h : TargetRead l p) (hs : p.state = .dstaddr)
    (c : UInt8) : TargetRead (l ++ [c]) (p.dstaddr c) := by
  simp only [TargetRead, hs] at h
  obtain ⟨rsv, hd, a, rfl, hp, hi, hlt⟩ := h
  obtain ⟨hp', hi', hn', hcmd, ht⟩ := addrPart_store hp hi hlt c
  have hlen : (a ++ [c]).length = a.length + 1 := by simp
  have hi1 : (p.i + 1).toNat = a.length + 1 :=
    toNat_succ (n := 255) hi (Nat.lt_of_lt_of_le hlt (taken_le p.n))
  unfold RequestParser.dstaddr RequestParser.remainingIsDone
  simp only [hn', hi', decide_eq_true_eq, UInt8.le_iff_toNat_le, hi1]
  by_cases hdone : p.n.toNat ≤ a.length + 1
  · have hk : (a ++ [c]).length = taken p.n := by
      rw [hlen]
      unfold taken at hlt ⊢; omega
    rw [if_pos hdone]
    refine ⟨rsv, hd, a ++ [c], [], ?_, ?_, rfl, Nat.succ_pos _, rfl, filledTo_nil 2⟩
    · simp [RequestParser.remainingSet, hcmd, ht]
    · rw [hk, RequestParser.remainingSet]
      simp only [ht]
      exact hp'
  · rw [if_neg hdone]
    refine ⟨rsv, hd, a ++ [c], ?_, ?_, ?_, ?_⟩
    · simp [hcmd, ht]
    · rw [← ht] at hp'
      exact hp'
    · simp only [hi1, hlen]
    · simp only [hlen]
      unfold taken; omega

theorem targetRead_port {l : List UInt8} {p : RequestParser} (h : TargetRead l p) (hs : p.state = .dstport)
    (c : UInt8) : TargetRead (l ++ [c]) (p.dstport c) := by
  simp only [TargetRead, hs] at h
  obtain ⟨rsv, hd, a, b, rfl, hp, hi, hb, hn, hf⟩ := h
  have hi1 : (p.i + 1).toNat = b.length + 1 := toNat_succ (n := 2) hi hb
  have hf1 := filledTo_set hf hb c
  have hlen : (b ++ [c]).length = b.length + 1 := by simp
  unfold RequestParser.dstport RequestParser.remainingIsDone
  simp only [hn, decide_eq_true_eq, UInt8.le_iff_toNat_le, hi1, hi]
  by_cases hdone : (2 : UInt8).toNat ≤ b.length + 1
  · have hlen2 : (b ++ [c]).length = 2 := by
      simp only [UInt8.reduceToNat] at hdone
      omega
    have hport : p.request.destPort.set b.length c = b ++ [c] := filledTo_full hf1 hlen2
    rw [if_pos hdone]
    refine ⟨rsv, hd, a, ?_, hp, ?_⟩
    · simp [hport]
    · simp only [hport, hlen2]
  · rw [if_neg hdone]
    refine ⟨rsv, hd, a, b ++ [c], by simp, hp, by simp only [hi1, hlen], ?_, rfl, hf1⟩
    simp only [UInt8.reduceToNat] at hdone
    omega

theorem targetRead_step {l : List UInt8} {p : RequestParser} (h : TargetRead l p) (hs : requestStops p = false)
    (c : UInt8) : TargetRead (l ++ [c]) (requestParserFeed p c) := by
  unfold requestParserFeed
  cases hst : p.state with
  | version =>
    simp only [TargetRead, hst] at h
    obtain ⟨rfl, hr⟩ := h
    by_cases hc : c = 0x05
    · subst hc
      exact ⟨rfl, hr⟩
    · simp only [TargetRead, RequestParser.version, hc, if_false]
      exact ⟨c, hc, rfl⟩
  | cmd =>
    simp only [TargetRead, hst] at h
    obtain ⟨rfl, hr⟩ := h
    refine ⟨rfl, ?_⟩
    simp only [RequestParser.cmd, hr]
  | rvs =>
    simp only [TargetRead, hst] at h
    obtain ⟨rfl, hr⟩ := h
    exact ⟨⟨c, rfl⟩, hr⟩
  | atype => exact targetRead_atype h hst c
  | dstaddrFqdn => exact targetRead_fqdn h hst c
  | dstaddr => exact targetRead_addr h hst c
  | dstport => exact targetRead_port h hst c
  | _ => simp [requestStops, requestIsDone, hst] at hs

theorem targetRead_undone (p : RequestParser) {u : List UInt8}
    (hu : Undone requestParserFeed requestStops (requestParserInit p) u) (c : UInt8) :
    TargetRead u (feedAll requestParserFeed (requestParserInit p) u) ∧
      TargetRead (u ++ [c]) (feedAll requestParserFeed (requestParserInit p) (u ++ [c])) := by
  refine undone_tracked ?_ ⟨rfl, rfl⟩ ?_ hu c
  · exact fun _ _ c h hs => targetRead_step h hs c
  · rfl

theorem targetRead_stopsAt {p : RequestParser} {l : List UInt8}
    (h : StopsAt requestParserFeed requestStops (requestParserInit p) l) :
    TargetRead l (feedAll requestParserFeed (requestParserInit p) l) ∧
      requestStops (feedAll requestParserFeed (requestParserInit p) l) = true := by
  obtain ⟨u, c, rfl, hu, hd⟩ := h
  exact ⟨(targetRead_undone p hu c).2, hd⟩

/-! ## Recognition -/

theorem addrPart_field {atyp : UInt8} {addr : SocksAddr} {h a : List UInt8} (hp : AddrPart atyp addr a.length h a) :
    AddrField taken atyp (h ++ a) := by
  generalize hk : a.length = k at hp
  cases hp with
  | ipv4 ht hf => rw [ht]; exact .ipv4 hk
  | ipv6 ht hf => rw [ht]; exact .ipv6 hk
  | domain ht hf => rw [ht]; exact .domain hk

theorem addrPart_extends {atyp : UInt8} {addr : SocksAddr} {k : Nat} {h a : List UInt8}
    (hp : AddrPart atyp addr k h a) (hlt : a.length < k) : ∃ c r, AddrField taken atyp (h ++ (a ++ c :: r)) := by
  obtain ⟨r, hlen⟩ : ∃ r : List UInt8, (a ++ 0 :: r).length = k := by
    refine ⟨List.replicate (k - a.length - 1) 0, ?_⟩
    simp only [List.length_append, List.length_cons, List.length_replicate]; omega
  refine ⟨0, r, ?_⟩
  cases hp with
  | ipv4 ht hf => rw [ht]; exact .ipv4 hlen
  | ipv6 ht hf => rw [ht]; exact .ipv6 hlen
  | domain ht hf => rw [ht]; exact .domain hlen

theorem requests_mem {need : UInt8 → Nat} (cmd rsv : UInt8) {atyp : UInt8} {field : List UInt8} (port : List UInt8)
    (hf : AddrField need atyp field) (hp : port.length = 2) :
    0x05 :: cmd :: rsv :: atyp :: (field ++ port) ∈ requests need :=
  ⟨⟨cmd, rsv, atyp, field, port⟩, hf, hp, rfl⟩

theorem targetRead_goesOn {l : List UInt8} {p : RequestParser} (h : TargetRead l p) (hs : requestStops p = false) :
    GoesOn (requests taken) l := by
  have hsome : AddrField taken socksAddrTypeIpv4 [0, 0, 0, 0] := .ipv4 rfl
  cases hst : p.state with
  | version =>
    simp only [TargetRead, hst] at h
    rw [h.1]
    exact ⟨0x05, _, requests_mem 0 0 [0, 0] hsome rfl⟩
  | cmd =>
    simp only [TargetRead, hst] at h
    rw [h.1]
    exact ⟨0x00, _, requests_mem _ 0 [0, 0] hsome rfl⟩
  | rvs =>
    simp only [TargetRead, hst] at h
    rw [h.1]
    exact ⟨0x00, _, requests_mem _ _ [0, 0] hsome rfl⟩
  | atype =>
    simp only [TargetRead, hst] at h
    obtain ⟨⟨rsv, rfl⟩, _⟩ := h
    exact ⟨socksAddrTypeIpv4, _, requests_mem _ _ [0, 0] hsome rfl⟩
  | dstaddrFqdn =>
    simp only [TargetRead, hst] at h
    obtain ⟨⟨rsv, rfl⟩, _⟩ := h
    exact ⟨0x01, _, requests_mem _ _ [0, 0] (.domain (a := [0]) rfl) rfl⟩
  | dstaddr =>
    simp only [TargetRead, hst] at h
    obtain ⟨rsv, hd, a, rfl, hp, _, hlt⟩ := h
    obtain ⟨c, r, hf⟩ := addrPart_extends hp hlt
    exact ⟨c, r ++ [0, 0], by simpa using requests_mem _ _ [0, 0] hf rfl⟩
  | dstport =>
    simp only [TargetRead, hst] at h
    obtain ⟨rsv, hd, a, b, rfl, hp, _, hb, _⟩ := h
    -- any octets complete the port
    have hport : ∃ c r, (b ++ c :: r).length = 2 := by
      refine ⟨(0 : UInt8), List.replicate (1 - b.length) 0, ?_⟩
      simp only [List.length_append, List.length_cons, List.length_replicate]; omega
    obtain ⟨c, r, hlen⟩ := hport
    exact ⟨c, r, by simpa using requests_mem _ _ _ (addrPart_field hp) hlen⟩
  | _ => simp [requestStops, requestIsDone, hst] at hs

theorem addrField_append {need : UInt8 → Nat} {atyp : UInt8} {f f' s s' : List UInt8} (h : AddrField need atyp f)
    (h' : AddrField need atyp f') (he : f ++ s = f' ++ s') : f = f' ∧ s = s' := by
  generalize ht : atyp = t at h'
  cases h with
  | ipv4 hl =>
    cases h' with
    | ipv4 hl' => exact List.append_inj he (hl.trans hl'.symm)
    | ipv6 => exact absurd ht (by decide)
    | domain => exact absurd ht (by decide)
  | ipv6 hl =>
    cases h' with
    | ipv4 => exact absurd ht (by decide)
    | ipv6 hl' => exact List.append_inj he (hl.trans hl'.symm)
    | domain => exact absurd ht (by decide)
  | domain hl =>
    cases h' with
    | ipv4 => exact absurd ht (by decide)
    | ipv6 => exact absurd ht (by decide)
    | domain hl' =>
      obtain ⟨rfl, htail⟩ := List.cons.inj he
      obtain ⟨rfl, hs⟩ := List.append_inj htail (hl.trans hl'.symm)
      exact ⟨rfl, hs⟩

theorem addrField_atyp {need : UInt8 → Nat} {atyp : UInt8} {f : List UInt8} (h : AddrField need atyp f) :
    atyp = socksAddrTypeIpv4 ∨ atyp = socksAddrTypeIpv6 ∨ atyp = socksAddrTypeDomain := by
  cases h with
  | ipv4 => exact Or.inl rfl
  | ipv6 => exact Or.inr (Or.inl rfl)
  | domain => exact Or.inr (Or.inr rfl)

/-- A request that is followed by something is read in one way. -/
theorem encode_append {need : UInt8 → Nat} {m m' : SocksRequest} {r r' : List UInt8}
    (hf : AddrField need m.atyp m.field) (hp : m.port.length = 2) (hf' : AddrField need m'.atyp m'.field)
    (hp' : m'.port.length = 2) (he : m.encode ++ r = m'.encode ++ r') : m = m' ∧ r = r' := by
  obtain ⟨cmd, rsv, atyp, field, port⟩ := m
  obtain ⟨cmd', rsv', atyp', field', port'⟩ := m'
  simp only [SocksRequest.encode, List.cons_append, List.append_assoc, List.cons.injEq, true_and] at he
  obtain ⟨rfl, rfl, rfl, htail⟩ := he
  obtain ⟨rfl, hport⟩ := addrField_append hf hf' htail
  obtain ⟨rfl, rfl⟩ := List.append_inj hport (hp.trans hp'.symm)
  exact ⟨rfl, rfl⟩

theorem requests_prefixFree {need : UInt8 → Nat} {w r : List UInt8} (hw : w ∈ requests need)
    (hr : w ++ r ∈ requests need) : r = [] := by
  obtain ⟨m, hf, hp, rfl⟩ := hw
  obtain ⟨m', hf', hp', he⟩ := hr
  rw [← List.append_nil m'.encode] at he
  exact (encode_append hf hp hf' hp' he).2

def isRequestDone (p : RequestParser) : Bool := decide (p.state = .done)

theorem isRequestDone_iff (p : RequestParser) : isRequestDone p = true ↔ p.state = .done := decide_eq_true_iff

theorem targetRead_error {l : List UInt8} {p : RequestParser} (h : TargetRead l p) (hs : requestStops p = true)
    (hno : isRequestDone p = false) {need : UInt8 → Nat} (s : List UInt8) : l ++ s ∉ requests need := by
  rintro ⟨m, hf, _, he⟩
  cases hst : p.state with
  | done => simp [isRequestDone, hst] at hno
  | error => simp only [TargetRead, hst] at h
  | errorUnsupportedVersion =>
    simp only [TargetRead, hst] at h
    obtain ⟨c, hc, rfl⟩ := h
    exact hc (List.cons.inj he).1
  | errorUnsupportedAtype =>
    simp only [TargetRead, hst] at h
    obtain ⟨c, rsv, t, h4, h6, hd, rfl⟩ := h
    simp only [SocksRequest.encode, List.cons_append, List.cons.injEq] at he
    obtain ⟨-, -, -, rfl, -⟩ := he
    rcases addrField_atyp hf with ht | ht | ht
    · exact h4 ht
    · exact h6 ht
    · exact hd ht
  | _ => simp [requestStops, requestIsDone, hst] at hs

theorem requestParser_recognises (p : RequestParser) :
    Recognises requestParserFeed requestStops isRequestDone (requestParserInit p) (requests taken) where
  start := rfl
  prefixFree := requests_prefixFree
  waits := by
    intro l hu
    exact targetRead_goesOn (targetRead_undone p hu 0).1 (undone_not_done rfl hu)
  accepts := by
    intro l hs hok
    rw [isRequestDone_iff] at hok
    have hread := (targetRead_stopsAt hs).1
    simp only [TargetRead, hok] at hread
    obtain ⟨rsv, h, a, hl, hp, hlen⟩ := hread
    rw [hl]
    exact requests_mem _ _ _ (addrPart_field hp) hlen
  rejects := by
    intro l hs hok s
    obtain ⟨hread, hstop⟩ := targetRead_stopsAt hs
    exact targetRead_error hread hstop hok s

/-! ## What is stored -/

theorem targetRead_stored {m : SocksRequest} {q : RequestParser} (h : TargetRead m.encode q)
    (hdone : q.state = .done) (hf : AddrField taken m.atyp m.field) (hp : m.port.length = 2) :
    m.Stored q.request := by
  simp only [TargetRead, hdone] at h
  obtain ⟨rsv, hd, a, hl, hpart, hport⟩ := h
  have he : m.encode ++ [] = SocksRequest.encode
      ⟨q.request.cmd, rsv, q.request.destAddrType, hd ++ a, q.request.destPort⟩ ++ [] := by
    rw [List.append_nil, List.append_nil, hl]
    rfl
  obtain ⟨rfl, _⟩ := encode_append hf hp (addrPart_field hpart) hport he
  generalize hk : a.length = k at hpart
  constructor
  · rfl
  · rfl
  · intro ht
    cases hpart with
    | ipv4 _ hfill => exact filledTo_full hfill hk
    | ipv6 ht' => exact absurd (ht.symm.trans ht') (by decide)
    | domain ht' => exact absurd (ht.symm.trans ht') (by decide)
  · intro ht
    cases hpart with
    | ipv4 ht' => exact absurd (ht.symm.trans ht') (by decide)
    | ipv6 _ hfill => exact filledTo_full hfill hk
    | domain ht' => exact absurd (ht.symm.trans ht') (by decide)
  · intro ht
    cases hpart with
    | ipv4 ht' => exact absurd (ht.symm.trans ht') (by decide)
    | ipv6 ht' => exact absurd (ht.symm.trans ht') (by decide)
    | domain _ hfill => exact hfill
  · rfl

/-- The parser reads a request whose name, if it has one, takes what it says. -/
theorem requestFeed_encode (p : RequestParser) {m : SocksRequest} (hf : AddrField taken m.atyp m.field)
    (hp : m.port.length = 2) :
    StopsAt requestParserFeed requestStops (requestParserInit p) m.encode ∧
      (feedAll requestParserFeed (requestParserInit p) m.encode).state = .done ∧
      m.Stored (feedAll requestParserFeed (requestParserInit p) m.encode).request := by
  obtain ⟨hs, hok⟩ := word_stopsAt (requestParser_recognises p) ⟨m, hf, hp, rfl⟩
  rw [isRequestDone_iff] at hok
  exact ⟨hs, hok, targetRead_stored (targetRead_stopsAt hs).1 hok hf hp⟩

theorem requestFeed_stops {q : RequestParser} (h : requestStops q = true) (r : List UInt8) :
    feedAll requestParserFeed q r = q := by
  have hc : ∀ c, requestParserFeed q c = q := by
    intro c
    unfold requestParserFeed
    cases hst : q.state with
    | done | error | errorUnsupportedVersion | errorUnsupportedAtype => rfl
    | _ => simp [requestStops, requestIsDone, hst] at h
  induction r with
  | nil => rfl
  | cons c r ih => rw [feedAll_cons, hc, ih]

/-! ## Stores to the name -/

/-- The indexes at which a byte is stored to `fdqn`. -/
def fdqnStores (p : RequestParser) (c : UInt8) : List Int :=
  match p.state with
  | .dstaddrFqdn => [(c.toNat : Int) - 1]
  | .dstaddr => if p.request.destAddrType = socksAddrTypeDomain then [(p.i.toNat : Int)] else []
  | _ => []

theorem storeAddr_fdqn {p : RequestParser} {k : Nat}
    (h : p.request.destAddrType = socksAddrTypeDomain → k ≠ p.i.toNat) (c : UInt8) :
    (p.storeAddr c).request.destAddr.fdqn[k]? = p.request.destAddr.fdqn[k]? := by
  unfold RequestParser.storeAddr
  by_cases h4 : p.request.destAddrType = socksAddrTypeIpv4
  · rw [if_pos h4]
  · by_cases h6 : p.request.destAddrType = socksAddrTypeIpv6
    · rw [if_neg h4, if_pos h6]
    · by_cases hd : p.request.destAddrType = socksAddrTypeDomain
      · rw [if_neg h4, if_neg h6, if_pos hd]
        exact List.getElem?_set_ne (Ne.symm (h hd))
      · rw [if_neg h4, if_neg h6, if_neg hd]

/-- A byte changes the name at no other index. -/
theorem fdqn_unstored {p : RequestParser} {c : UInt8} {k : Nat} (h : (k : Int) ∉ fdqnStores p c) :
    (requestParserFeed p c).request.destAddr.fdqn[k]? = p.request.destAddr.fdqn[k]? := by
  unfold requestParserFeed
  unfold fdqnStores at h
  cases hst : p.state with
  | dstaddrFqdn =>
    rw [hst] at h
    simp only [List.mem_singleton] at h
    simp only [RequestParser.dstaddrFqdn]
    by_cases hc : c = 0
    · rw [if_pos hc]
    · rw [if_neg hc]
      have hne := toNat_ne hc
      simp only [UInt8.reduceToNat] at hne
      exact List.getElem?_set_ne (by omega)
  | dstaddr =>
    rw [hst] at h
    have hstore := storeAddr_fdqn (p := p) (k := k) (c := c) fun hd he => by simp [hd, he] at h
    simp only [RequestParser.dstaddr]
    split
    · exact hstore
    · exact hstore
  | atype =>
    simp only [RequestParser.atype]
    split
    · rfl
    · split
      · rfl
      · split
        · rfl
        · rfl
  | dstport =>
    simp only [RequestParser.dstport]
    split
    · rfl
    · rfl
  | version | cmd | rvs | done | error | errorUnsupportedVersion | errorUnsupportedAtype => rfl

/-! ## The verdict -/

/-- The bytes are read as requests are meant: the parser is done exactly at the
last byte of one, and holds it from then on; other versions and address types
give their errors; the name is stored to at the indexes 0 to 254. -/
structure ReadsRequest (p : RequestParser) (l : List UInt8) : Prop where
  done : StopsAt requestParserFeed requestStops (requestParserInit p) l ∧
    (feedAll requestParserFeed (requestParserInit p) l).state = .done ↔ l ∈ requests UInt8.toNat
  stored : ∀ (m : SocksRequest) r, AddrField UInt8.toNat m.atyp m.field → m.port.length = 2 → l = m.encode ++ r →
    (feedAll requestParserFeed (requestParserInit p) l).state = .done ∧
      m.Stored (feedAll requestParserFeed (requestParserInit p) l).request
  version : ∀ c r, l = c :: r → c ≠ 0x05 →
    (feedAll requestParserFeed (requestParserInit p) l).state = .errorUnsupportedVersion
  atyp : ∀ cmd rsv t r, l = 0x05 :: cmd :: rsv :: t :: r →
    t ≠ socksAddrTypeIpv4 → t ≠ socksAddrTypeIpv6 → t ≠ socksAddrTypeDomain →
      (feedAll requestParserFeed (requestParserInit p) l).state = .errorUnsupportedAtype
  fdqn : ∀ u c r, l = u ++ c :: r →
    ∀ i ∈ fdqnStores (feedAll requestParserFeed (requestParserInit p) u) c, 0 ≤ i ∧ i ≤ 254

/-- The bytes begin with those of a request for a name of length 0. -/
def EmptyName (l : List UInt8) : Prop := ∃ cmd rsv r, l = 0x05 :: cmd :: rsv :: socksAddrTypeDomain :: 0x00 :: r

theorem taken_eq {n : UInt8} (h : n ≠ 0) : taken n = n.toNat := by
  have hne := toNat_ne h
  simp only [UInt8.reduceToNat] at hne
  unfold taken; omega

theorem addrField_taken {m : SocksRequest} {r : List UInt8} (h : ¬ EmptyName (m.encode ++ r)) :
    AddrField taken m.atyp m.field ↔ AddrField UInt8.toNat m.atyp m.field := by
  obtain ⟨cmd, rsv, atyp, field, port⟩ := m
  have hzero : ∀ n a, atyp = socksAddrTypeDomain → field = n :: a → n ≠ 0 := by
    rintro n a rfl rfl rfl
    exact h ⟨cmd, rsv, a ++ port ++ r, by simp [SocksRequest.encode]⟩
  constructor
  · intro hf
    generalize hn : field = f at hf hzero
    cases hf with
    | ipv4 hl => exact .ipv4 hl
    | ipv6 hl => exact .ipv6 hl
    | domain hl => exact .domain (hl.trans (taken_eq (hzero _ _ rfl rfl)))
  · intro hf
    generalize hn : field = f at hf hzero
    cases hf with
    | ipv4 hl => exact .ipv4 hl
    | ipv6 hl => exact .ipv6 hl
    | domain hl => exact .domain (hl.trans (taken_eq (hzero _ _ rfl rfl)).symm)

theorem requests_taken {l : List UInt8} (h : ¬ EmptyName l) : l ∈ requests taken ↔ l ∈ requests UInt8.toNat := by
  constructor
  · rintro ⟨m, hf, hp, rfl⟩
    rw [← List.append_nil m.encode] at h
    exact ⟨m, (addrField_taken h).mp hf, hp, rfl⟩
  · rintro ⟨m, hf, hp, rfl⟩
    rw [← List.append_nil m.encode] at h
    exact ⟨m, (addrField_taken h).mpr hf, hp, rfl⟩

/-- Every store to a name that is not of length 0 is inside `fdqn`. -/
theorem fdqnStores_bounded (p : RequestParser) {l u r : List UInt8} {c : UInt8} (h : ¬ EmptyName l)
    (hl : l = u ++ c :: r) :
    ∀ i ∈ fdqnStores (feedAll requestParserFeed (requestParserInit p) u) c, 0 ≤ i ∧ i ≤ 254 := by
  intro i hi
  have hread : requestStops (feedAll requestParserFeed (requestParserInit p) u) = false →
      TargetRead u (feedAll requestParserFeed (requestParserInit p) u) := by
    intro hd
    refine (targetRead_undone p (undone_of_not_done ?_ hd) 0).1
    intro q b hq
    have hstay := requestFeed_stops hq [b]
    rw [feedAll_cons, feedAll_nil] at hstay
    rw [hstay]
    exact hq
  generalize feedAll requestParserFeed (requestParserInit p) u = q at hi hread
  unfold fdqnStores at hi
  cases hst : q.state with
  | dstaddrFqdn =>
    have hread := hread (by rw [requestStops, hst]; rfl)
    simp only [TargetRead, hst] at hread
    obtain ⟨⟨rsv, rfl⟩, -⟩ := hread
    have hc : c ≠ 0 := by
      rintro rfl
      exact h ⟨q.request.cmd, rsv, r, hl⟩
    have hne := toNat_ne hc
    have hlt := c.toNat_lt
    rw [hst] at hi
    obtain rfl := List.mem_singleton.mp hi
    simp only [UInt8.reduceToNat] at hne
    omega
  | dstaddr =>
    have hread := hread (by rw [requestStops, hst]; rfl)
    simp only [TargetRead, hst] at hread
    obtain ⟨_, _, a, _, _, hi', hlt⟩ := hread
    have hle := taken_le q.n
    rw [hst] at hi
    simp only at hi
    split at hi
    · obtain rfl := List.mem_singleton.mp hi
      omega
    · cases hi
  | _ => rw [hst] at hi; cases hi

/-- The bytes are read as requests are meant exactly when they do not begin
with a request for a name of length 0. -/
theorem readsRequest_iff (p : RequestParser) (l : List UInt8) : ReadsRequest p l ↔ ¬ EmptyName l := by
  constructor
  · rintro h ⟨cmd, rsv, r, hl⟩
    -- the terminator of the empty name is stored at the index -1
    have hneg := h.fdqn [0x05, cmd, rsv, socksAddrTypeDomain] 0x00 r hl (-1) (List.mem_singleton.mpr rfl)
    exact absurd hneg.1 (by decide)
  · intro h
    refine ⟨?_, ?_, ?_, ?_, fun u c r hl => fdqnStores_bounded p h hl⟩
    · rw [← isRequestDone_iff, stopsAt_word_iff (requestParser_recognises p) l]
      exact requests_taken h
    · intro m r hf hp hl
      rw [hl] at h
      obtain ⟨_, hdone, hst⟩ := requestFeed_encode p ((addrField_taken h).mpr hf) hp
      have hstop : requestStops (feedAll requestParserFeed (requestParserInit p) m.encode) = true := by
        rw [requestStops, hdone]; rfl
      -- the octets after a request are not looked at
      rw [hl, feedAll_append, requestFeed_stops hstop]
      exact ⟨hdone, hst⟩
    · rintro c r rfl hc
      have hst : (requestParserFeed (requestParserInit p) c).state = .errorUnsupportedVersion := by
        simp [requestParserFeed, requestParserInit, RequestParser.version, hc]
      rw [feedAll_cons, requestFeed_stops (by rw [requestStops, hst]; rfl)]
      exact hst
    · rintro cmd rsv t r rfl h4 h6 hd
      have hst :
          (feedAll requestParserFeed (requestParserInit p) [0x05, cmd, rsv, t]).state = .errorUnsupportedAtype := by
        show (RequestParser.atype t _).state = _
        simp [RequestParser.atype, h4, h6, hd]
      rw [show 0x05 :: cmd :: rsv :: t :: r = [0x05, cmd, rsv, t] ++ r from rfl, feedAll_append,
        requestFeed_stops (by rw [requestStops, hst]; rfl)]
      exact hst

theorem emptyName_misread :
    ¬ ReadsRequest ⟨Request.zero, .version, 0, 0⟩ [0x05, 0x01, 0x00, 0x03, 0x00, 0x00, 0x50] := by
  intro h
  have hword : [0x05, 0x01, 0x00, 0x03, 0x00, 0x00, 0x50] ∈ requests UInt8.toNat :=
    requests_mem _ _ [0x00, 0x50] (.domain (n := 0) (a := []) rfl) rfl
  exact absurd (h.done.mpr hword).2 (by decide)

/-! ## The reply to a request -/

/-- A name in the request has 1 to 254 octets, none of them 0. -/
def PlainName (l : List UInt8) : Prop :=
  ∀ n r, l.drop 3 = socksAddrTypeDomain :: n :: r → 1 ≤ n.toNat ∧ n.toNat ≤ 254 ∧ 0 ∉ r.take n.toNat

theorem replyAddr_stored {m : SocksRequest} {r : Request} (h : m.Stored r) (hf : AddrField taken m.atyp m.field)
    (hn : PlainName m.encode) : replyAddr r.destAddrType r.destAddr = m.field := by
  obtain ⟨cmd, rsv, atyp, field, port⟩ := m
  obtain ⟨_, hatyp, h4, h6, hd, _⟩ := h
  simp only at hatyp h4 h6 hd hf
  rw [hatyp]
  unfold replyAddr
  cases hf with
  | ipv4 _ =>
    rw [if_pos rfl]
    exact h4 rfl
  | ipv6 _ =>
    rw [if_neg (by decide), if_pos rfl]
    exact h6 rfl
  | @domain n a hl =>
    rw [if_neg (by decide), if_neg (by decide), if_pos rfl]
    obtain ⟨h1, h254, hzero⟩ := hn n (a ++ port) rfl
    have hlen : a.length = n.toNat := by
      rw [hl]
      unfold taken; omega
    rw [List.take_left' hlen] at hzero
    have hfill : r.destAddr.fdqn = a ++ List.replicate (255 - a.length) 0 := hd rfl
    obtain ⟨k, hk⟩ : ∃ k, 255 - a.length = k + 1 := ⟨254 - a.length, by omega⟩
    rw [hk, List.replicate_succ] at hfill
    have hname : r.destAddr.fdqn.takeWhile (· != 0) = a := by
      rw [hfill]
      exact cString_of_noNul hzero _
    simp only [hname]
    rw [hlen, UInt8.ofNat_toNat]

/-- What a parser holds after the bytes `l`. -/
def parsedRequest (p : RequestParser) (l : List UInt8) : Request :=
  (feedAll requestParserFeed (requestParserInit p) l).request

def repeated (status : SocksResponseStatus) (l : List UInt8) : List UInt8 :=
  0x05 :: status.toByte :: 0x00 :: l.drop 3

def marshalParsed (b : Buffer) (status : SocksResponseStatus) (r : Request) : Buffer × Int :=
  requestMarshal b status r.destAddrType r.destAddr r.destPort

/-- The reply to a request that has been accepted repeats it from its address
type on; it is appended when there is room for it, and not begun otherwise. -/
theorem requestMarshal_repeats (p : RequestParser) (l : List UInt8) (status : SocksResponseStatus) (b : Buffer)
    (hs : StopsAt requestParserFeed requestStops (requestParserInit p) l)
    (hdone : (feedAll requestParserFeed (requestParserInit p) l).state = .done) (hn : PlainName l) :
    ((repeated status l).length ≤ bufferWritePtr b →
      (marshalParsed b status (parsedRequest p l)).1.unread = b.unread ++ repeated status l ∧
        (marshalParsed b status (parsedRequest p l)).2 = (repeated status l).length) ∧
    (bufferWritePtr b < (repeated status l).length → marshalParsed b status (parsedRequest p l) = (b, -1)) := by
  have hword := (stopsAt_word_iff (requestParser_recognises p) l).mp ⟨hs, (isRequestDone_iff _).mpr hdone⟩
  obtain ⟨m, hf, hp, rfl⟩ := hword
  obtain ⟨_, _, hst⟩ := requestFeed_encode p hf hp
  have hreply : replyFrame status m.atyp (parsedRequest p m.encode).destAddr m.port = repeated status m.encode := by
    have haddr := replyAddr_stored hst hf hn
    rw [hst.atyp] at haddr
    rw [replyFrame, parsedRequest, haddr]
    simp [repeated, SocksRequest.encode]
  have hresult : marshalParsed b status (parsedRequest p m.encode) =
      bufferMarshal b (repeated status m.encode) := by
    rw [← hreply, marshalParsed, requestMarshal]
    rw [show (parsedRequest p m.encode).destAddrType = m.atyp from hst.atyp,
      show (parsedRequest p m.encode).destPort = m.port from hst.port]
  rw [hresult]
  constructor
  · intro hroom
    rw [bufferMarshal_fits hroom]
    exact ⟨unread_fill b _, rfl⟩
  · intro hfull
    exact dif_neg (Nat.not_le.mpr hfull)

/-- A request for a name of one octet, and a buffer with room for the reply. -/
theorem requestMarshal_repeats_name :
    (marshalParsed (bufferInit (List.replicate 8 0)) .succeeded
      (parsedRequest ⟨Request.zero, .version, 0, 0⟩ [0x05, 0x01, 0x00, 0x03, 0x01, 0x61, 0x00, 0x50])).2 = 8 := by
  have hs : StopsAt requestParserFeed requestStops (requestParserInit ⟨Request.zero, .version, 0, 0⟩)
      [0x05, 0x01, 0x00, 0x03, 0x01, 0x61, 0x00, 0x50] :=
    ⟨[0x05, 0x01, 0x00, 0x03, 0x01, 0x61, 0x00], 0x50, rfl, ⟨rfl, rfl, rfl, rfl, rfl, rfl, rfl, trivial⟩, rfl⟩
  have hn : PlainName [0x05, 0x01, 0x00, 0x03, 0x01, 0x61, 0x00, 0x50] := by
    intro n r he
    obtain ⟨_, rfl, rfl⟩ : _ ∧ 0x01 = n ∧ [0x61, 0x00, 0x50] = r := by
      simpa using he
    decide
  exact ((requestMarshal_repeats ⟨Request.zero, .version, 0, 0⟩ _ .succeeded _ hs rfl hn).1 (by decide)).2

end SocksProxy
