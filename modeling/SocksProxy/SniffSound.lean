import SocksProxy.Lib.Feed
import SocksProxy.Pop3Sound
import SocksProxy.RelaySound
import SocksProxy.SessionRun

/-!
# The sniffer of a session

`initialize_session` fills the sniffer with bytes that read as a sniffer that
is parsing already, in a state that is none of its states and with no room in
its buffer. `pop3sniff` then neither initialises it nor feeds it anything
(`sniff_never`).
-/

namespace SocksProxy

open Lib

/-- What has been received on a descriptor and sent on it, in order. -/
def Syscall.relayedOn (fd : Int) (x : Syscall) : List UInt8 := x.receivedOn fd ++ x.sentOn fd

def relayedOn (fd : Int) (log : List Syscall) : List UInt8 := log.flatMap (Syscall.relayedOn fd)

/-- The sniffer that has been initialised and fed the bytes from and to the origin until it is done. -/
def sniffExpected (c : Conn) : Pop3Sniff :=
  (feedUntil pop3Parse pop3Done (pop3Init Pop3Sniff.fill) (relayedOn c.server.fd c.log)).1

/-- The state is one of the enumerators. -/
def Named (st : Pop3State) : Prop := ∀ v, st ≠ .raw v

theorem check_named (s : Pop3Sniff) (b : UInt8) : Named (pop3Check s b).2 := by
  unfold pop3Check Named
  intro v
  split
  · simp only
    split
    · simp
    · simp
  · split
    · simp only
      split
      · simp
      · simp
    · simp

theorem sniffer_named (s : Pop3Sniff) (b : UInt8) (w : List UInt8) {st next : Pop3State} (hst : Named st)
    (hnext : Named next) : Named (sniffer s b w st next).2 := by
  unfold sniffer
  split
  · split
    · exact hnext
    · exact hst
  · split
    · exact hst
    · exact hst

theorem parse_named (s : Pop3Sniff) (b : UInt8) (h : Named s.state) : Named (pop3Parse s b).state := by
  have hname : ∀ {st st' : Pop3State}, st' = st → Named st → Named st' := fun he hn => he ▸ hn
  unfold pop3Parse
  cases hst : s.state with
  | initial =>
    rcases initialMsg_states s b with he | he | he
    · exact hname he fun v => (by simp)
    · exact hname he fun v => (by simp)
    · exact hname he fun v => (by simp)
  | user => exact sniffer_named s b pop3User (fun v => by simp) (fun v => by simp)
  | readUser =>
    rcases readUser_states s b with he | ⟨he, -⟩
    · exact hname he fun v => (by simp)
    · exact hname he fun v => (by simp)
  | password => exact sniffer_named s b pop3Password (fun v => by simp) (fun v => by simp)
  | readPassword =>
    rcases (readPassword_states s b).2 with he | ⟨he, -⟩
    · exact hname he fun v => (by simp)
    · exact hname he fun v => (by simp)
  | check => exact check_named s b
  | success => exact fun v => (by simp)
  | done => exact fun v => (by simp)
  | raw v => exact absurd hst (h v)

theorem expected_named (c : Conn) : Named (sniffExpected c).state := by
  have hinit : Named (pop3Init Pop3Sniff.fill).state := fun v => by simp [pop3Init]
  exact feedUntil_keeps (I := fun s => Named s.state) (fun s b => parse_named s b) hinit _

/-- The sniffer of an open session is as `initialize_session` has left it. -/
theorem sniff_untouched (a : Accepted) {es : List Step} {c : Conn} (hr : run step a.conn es = .ok c)
    (hf : c.freed = false) : c.sniff = Pop3Sniff.fill := by
  rcases run_inv a hr with hfreed | ⟨fd, st, -, hp⟩
  · rw [hf] at hfreed
    cases hfreed
  · obtain ⟨i, o, live⟩ := phase_live hp
    exact live.sniff

/-- In COPY the sniffer is never in the state that it would be in, had it been
initialised and fed what is relayed. -/
theorem sniff_never (a : Accepted) {es : List Step} {c : Conn} (hr : run step a.conn es = .ok c) :
    AtState .copy (fun c => c.sniff.state ≠ (sniffExpected c).state) c := by
  intro hf _ h
  rw [sniff_untouched a hr hf] at h
  exact expected_named c _ h.symm

/-- An origin whose greeting is `+OK`. -/
def greetEvents : List Step := relayEvents.dropLast ++ [reads 8 pop3Ok .failed]

def greeted : Conn := final step firstAccepted.conn greetEvents

theorem sniff_never_greeted :
    run step firstAccepted.conn greetEvents = .ok greeted ∧ greeted.freed = false ∧
      stmState greeted.sMachine = SessionState.copy.toNat ∧
      greeted.sniff.state ≠ (sniffExpected greeted).state := by
  have hr : run step firstAccepted.conn greetEvents = .ok greeted := run_final (by decide +kernel)
  have hf : greeted.freed = false := by decide +kernel
  have hcopy : stmState greeted.sMachine = SessionState.copy.toNat := by decide +kernel
  exact ⟨hr, hf, hcopy, sniff_never firstAccepted hr hf hcopy⟩

/-- After the greeting the sniffer should wait for the name of the user. -/
theorem sniff_blind :
    run step firstAccepted.conn greetEvents = .ok greeted ∧ greeted.freed = false ∧
      (sniffExpected greeted).state = .user ∧ ¬ greeted.sniff.state = (sniffExpected greeted).state := by
  refine ⟨run_final (by decide +kernel), by decide +kernel, by decide +kernel, ?_⟩
  intro h
  have hraw : greeted.sniff.state = .raw 0x05050505 := by decide +kernel
  have huser : (sniffExpected greeted).state = .user := by decide +kernel
  rw [hraw, huser] at h
  cases h

end SocksProxy
