import SocksProxy.Parser.Consume

/-!
# The hello parser (`hello_parser.c`)

The parser reports each method octet to a callback; the callback's data is
carried next to the parser. `helloFeed_message` says which byte sequences are
complete hello messages and what has been reported then.
-/

namespace SocksProxy

open Lib

def methodNoAuthenticationRequired : UInt8 := 0x00
def methodNoAcceptableMethods : UInt8 := 0xFF
def methodUsernamePassword : UInt8 := 0x02

inductive HelloState where
  | version
  | nmethods
  | methods
  | done
  | errorUnsupportedVersion
  deriving DecidableEq, Repr

structure HelloParser where
  state : HelloState
  remaining : UInt8
  deriving DecidableEq, Repr

def helloParserInit : HelloParser := ⟨.version, 0⟩

section
variable {α : Type*} (onAuthenticationMethod : Option (α → UInt8 → α))

def helloParserFeed (p : HelloParser × α) (b : UInt8) : HelloParser × α :=
  match p.1.state with
  | .version =>
    if b = 0x05 then ({ p.1 with state := .nmethods }, p.2)
    else ({ p.1 with state := .errorUnsupportedVersion }, p.2)
  | .nmethods => ({ state := if b = 0 then .done else .methods, remaining := b }, p.2)
  | .methods =>
    let data := match onAuthenticationMethod with
      | some f => f p.2 b
      | none => p.2
    let remaining := p.1.remaining - 1
    ({ state := if remaining = 0 then .done else .methods, remaining := remaining }, data)
  | .done => p
  | .errorUnsupportedVersion => p

/-- The returned pair is `hello_is_done` and the error flag it raises. -/
def helloIsDone : HelloState → Bool × Bool
  | .errorUnsupportedVersion => (true, true)
  | .done => (true, false)
  | _ => (false, false)

def helloStops (p : HelloParser × α) : Bool := (helloIsDone p.1.state).1

def helloConsume (b : Buffer) (p : HelloParser × α) : Buffer × (HelloParser × α) :=
  consume (helloParserFeed onAuthenticationMethod) helloStops b p

end

def helloMarshall (b : Buffer) (method : UInt8) : Buffer × Int := bufferMarshal b [0x05, method]

/-! ## Hello messages -/

/-- `05 N M1..MN`. -/
def IsHello (ms l : List UInt8) : Prop := ∃ n : UInt8, n.toNat = ms.length ∧ l = 0x05 :: n :: ms

theorem isHello_unique {ms ms' l l' r r' : List UInt8} (h : IsHello ms l) (h' : IsHello ms' l')
    (he : l ++ r = l' ++ r') : ms = ms' ∧ l = l' ∧ r = r' := by
  obtain ⟨n, hn, rfl⟩ := h
  obtain ⟨n', hn', rfl⟩ := h'
  simp only [List.cons_append, List.cons.injEq, true_and] at he
  obtain ⟨rfl, he⟩ := he
  obtain ⟨rfl, rfl⟩ := List.append_inj he (hn.symm.trans hn')
  exact ⟨rfl, rfl, rfl⟩

theorem toNat_sub_one {k : UInt8} (hk : k ≠ 0) : (k - 1).toNat = k.toNat - 1 := by
  have h0 : k.toNat ≠ 0 := fun h => hk (UInt8.toNat_inj.mp h)
  have h1 : 1 ≤ k := by rw [UInt8.le_iff_toNat_le]; simp only [UInt8.reduceToNat]; omega
  simp [UInt8.toNat_sub_of_le _ _ h1]

section
variable {α : Type*} (f : α → UInt8 → α)

theorem helloFeed_method (k m : UInt8) (e : α) :
    helloParserFeed (some f) (⟨.methods, k⟩, e) m =
      (⟨if k - 1 = 0 then .done else .methods, k - 1⟩, f e m) := rfl

theorem helloFeed_methods : ∀ (ms : List UInt8) (k : UInt8) (e : α), ms.length ≤ k.toNat → k ≠ 0 →
    feedAll (helloParserFeed (some f)) (⟨.methods, k⟩, e) ms =
      (⟨if k.toNat = ms.length then .done else .methods, k - UInt8.ofNat ms.length⟩, ms.foldl f e)
  | [], k, e, _, hk => by
    have hk' : ¬ k.toNat = 0 := fun h => hk (UInt8.toNat_inj.mp h)
    simp [hk']
  | m :: ms, k, e, hl, hk => by
    rw [List.length_cons] at hl
    have h1 := toNat_sub_one hk
    rw [feedAll_cons, helloFeed_method]
    by_cases hz : k - 1 = 0
    · have hk1 : k.toNat ≤ 1 := by
        have : (k - 1).toNat = 0 := by rw [hz]; rfl
        omega
      have hms : ms = [] := List.eq_nil_of_length_eq_zero (by omega)
      subst hms
      have hk2 : k.toNat = 1 := by simp at hl; omega
      simp [hz, hk2]
    · have hofs : k - UInt8.ofNat (ms.length + 1) = k - 1 - UInt8.ofNat ms.length := by
        rw [UInt8.ofNat_add]; grind
      have hiff : (k - 1).toNat = ms.length ↔ k.toNat = ms.length + 1 := by
        have : k.toNat ≠ 0 := fun h => hk (UInt8.toNat_inj.mp h)
        omega
      rw [if_neg hz, helloFeed_methods ms (k - 1) _ (by omega) hz, List.length_cons, List.foldl_cons, hofs]
      simp only [hiff]

theorem hello_undone_methods : ∀ (ms : List UInt8) (k : UInt8) (e : α), k ≠ 0 →
    Undone (helloParserFeed (some f)) helloStops (⟨.methods, k⟩, e) ms → ms.length < k.toNat
  | [], k, _, hk, _ => Nat.pos_of_ne_zero fun h => hk (UInt8.toNat_inj.mp h)
  | m :: ms, k, e, hk, hu => by
    have h1 := toNat_sub_one hk
    simp only [Undone, helloFeed_method] at hu
    by_cases hz : k - 1 = 0
    · simp [hz, helloStops, helloIsDone] at hu
    · rw [if_neg hz] at hu
      have := hello_undone_methods ms (k - 1) _ hz hu.2
      rw [List.length_cons]; omega

/-- A parser that has just become done has read a complete hello message and
reported its methods in order, or has met a wrong version octet. -/
theorem helloFeed_done (d : α) {u : List UInt8} {c : UInt8}
    (hu : Undone (helloParserFeed (some f)) helloStops (helloParserInit, d) u)
    (hd : helloStops (feedAll (helloParserFeed (some f)) (helloParserInit, d) (u ++ [c])) = true) :
    (∃ ms k, IsHello ms (u ++ [c]) ∧
        feedAll (helloParserFeed (some f)) (helloParserInit, d) (u ++ [c]) = (⟨.done, k⟩, ms.foldl f d)) ∨
      ∃ k, feedAll (helloParserFeed (some f)) (helloParserInit, d) (u ++ [c]) =
        (⟨.errorUnsupportedVersion, k⟩, d) := by
  match u, hu with
  | [], _ =>
    by_cases hc : c = 0x05
    · subst hc; simp [helloParserFeed, helloParserInit, helloStops, helloIsDone] at hd
    · exact Or.inr ⟨0, by simp [helloParserFeed, helloParserInit, hc]⟩
  | [x], hu =>
    by_cases hx : x = 0x05
    · subst hx
      by_cases hc : c = 0
      · subst hc
        exact Or.inl ⟨[], 0, ⟨0, rfl, rfl⟩, by simp [helloParserFeed, helloParserInit]⟩
      · simp [helloParserFeed, helloParserInit, helloStops, helloIsDone, hc] at hd
    · simp [Undone, helloParserFeed, helloParserInit, helloStops, helloIsDone, hx] at hu
  | x :: n :: ms, hu =>
    by_cases hx : x = 0x05
    · subst hx
      by_cases hn : n = 0
      · subst hn
        simp [Undone, helloParserFeed, helloParserInit, helloStops, helloIsDone] at hu
      · have hm : Undone (helloParserFeed (some f)) helloStops (⟨.methods, n⟩, d) ms := by
          simpa [Undone, helloParserFeed, helloParserInit, hn] using hu.2.2
        have hl := hello_undone_methods f ms n d hn hm
        have hf := helloFeed_methods f (ms ++ [c]) n d (by simp; omega) hn
        have he : feedAll (helloParserFeed (some f)) (helloParserInit, d) (0x05 :: n :: ms ++ [c]) =
            feedAll (helloParserFeed (some f)) (⟨.methods, n⟩, d) (ms ++ [c]) := by
          simp [helloParserFeed, helloParserInit, hn]
        rw [he, hf] at hd ⊢
        by_cases hlen : n.toNat = (ms ++ [c]).length
        · rw [if_pos hlen]
          exact Or.inl ⟨ms ++ [c], _, ⟨n, hlen, rfl⟩, rfl⟩
        · rw [if_neg hlen] at hd
          simp [helloStops, helloIsDone] at hd
    · simp [Undone, helloParserFeed, helloParserInit, helloStops, helloIsDone, hx] at hu

theorem helloFeed_message (d : α) {ms l : List UInt8} (h : IsHello ms l) :
    ∃ k, feedAll (helloParserFeed (some f)) (helloParserInit, d) l = (⟨.done, k⟩, ms.foldl f d) := by
  obtain ⟨n, hn, rfl⟩ := h
  by_cases hz : n = 0
  · subst hz
    have hms : ms = [] := List.eq_nil_of_length_eq_zero (by simpa using hn.symm)
    subst hms
    exact ⟨0, by simp [helloParserFeed, helloParserInit]⟩
  · refine ⟨n - UInt8.ofNat ms.length, ?_⟩
    have he : feedAll (helloParserFeed (some f)) (helloParserInit, d) (0x05 :: n :: ms) =
        feedAll (helloParserFeed (some f)) (⟨.methods, n⟩, d) ms := by
      simp [helloParserFeed, helloParserInit, hz]
    rw [he, helloFeed_methods f ms n d (by omega) hz, if_pos hn]

end

end SocksProxy
