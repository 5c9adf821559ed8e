import SocksProxy.RelayInterest
import SocksProxy.ReplySound
import SocksProxy.Verdict
import SocksProxy.WaitSound

/-!
# Relaying over a connection that has been made

The reply says whether the origin's descriptor is connected, and COPY is entered
after any reply. `connects_iff` says in which runs a session relays only over a
connection: those in which no reply is completed after a failed attempt.
-/

namespace SocksProxy

open Lib

/-- A whole reply with this status has been sent to the client. -/
def ReplySent (c : Conn) (status : SocksResponseStatus) : Prop :=
  ∃ m cmd atyp addr port q, IsRequest cmd atyp addr port q ∧
    [0x05, m] ++ replyTo status q <+: sentOn c.clientFd c.log

/-- The session relays once it has replied that its origin is connected, and it
is; after any other reply it has been closed. -/
structure Connects (c : Conn) : Prop where
  entered : AtState .copy (fun c => ReplySent c .succeeded ∧ Connected c) c
  refused : ∀ status, status ≠ .succeeded → ReplySent c status → c.freed = true

/-- No connection attempt has failed when the last byte of a reply is sent. -/
def EntersConnected (c : Conn) (e : Event) : Prop := SendsLast .requestWrite c e → ¬ ConnectFailed c

/-! ## What has been said of the connection -/

/-- The attempt has been settled, and the request has the status `status`. -/
def Settled (c : Conn) (status : SocksResponseStatus) : Prop :=
  ∃ b, verdicts c.log = [(c.server.fd, b)] ∧ (b = true → status = .succeeded)

/-- What the log says of the connection in each state. -/
def Attempt (c : Conn) : SessionState → Prop
  | .helloRead | .helloWrite | .requestRead => verdicts c.log = []
  | .requestConnecting => Waits c → verdicts c.log = []
  | .requestWrite => c.output.unread ≠ [] → Settled c c.request.status
  | .copy => ∃ status, Settled c status ∧ ReplySent c status
  | _ => True

def Attempted (c : Conn) : Prop := c.freed = false → ∀ st, InState c st → Attempt c st

section
variable {c c' : Conn} {fd : Nat} {st : SessionState} {e : Event} {k : Key} {status : SocksResponseStatus}

theorem inState_unique {st' : SessionState} (h : InState c st) (h' : InState c st') : st = st' :=
  toNat_inj ((stmState_inState h).symm.trans (stmState_inState h'))

theorem replySent_prefix (hf : c'.clientFd = c.clientFd) (hl : sentOn c.clientFd c.log <+: sentOn c.clientFd c'.log)
    (h : ReplySent c status) : ReplySent c' status := by
  obtain ⟨m, cmd, atyp, addr, port, q, hq, hp⟩ := h
  exact ⟨m, cmd, atyp, addr, port, q, hq, hf ▸ hp.trans hl⟩

theorem settled_failed (h : Settled c status) : ConnectFailed c ↔ ¬ Connected c := by
  obtain ⟨b, hv, -⟩ := h
  unfold ConnectFailed Connected
  cases b <;> simp [hv]

theorem attempted_settle {r : Conn × SessionState} (hst : st ≠ .error ∧ st ≠ .done) (hgo : Goes k fd st r)
    (h : Attempt (settle k st r.1 r.2.toNat) r.2) : Attempted (settle k st r.1 r.2.toNat) := by
  rcases settle_goes hst hgo with hf | ⟨hs, -⟩
  · intro hf'
    rw [hf] at hf'; cases hf'
  · intro _ st' hs'
    exact inState_unique hs hs' ▸ h

theorem attempted_other (hst : InState c st) (hp : Phase c fd st) {x : Int} {a : Action} (hx : ¬ c.Owns x)
    (ha : a.data ≠ some (.session c.self)) (h : Attempted c) :
    Attempted { c with toProcess := c.toProcess.act x a } := by
  intro hf st' hs'
  obtain rfl := inState_unique hst hs'
  have hatt := h hf st hst
  cases hp with
  | helloRead | helloWrite | requestRead | unsupported | replying | copying => exact hatt
  | connecting ms h' q m live => exact fun _ => hatt (waits_live live)
  | stuck ms h' q live => exact fun hw => absurd hw (not_waits_live (live_other live hx ha))

/-! ## An event in each state -/

theorem settled_verdicts {l : List Syscall} {b : Bool} (hv : verdicts l = []) {x : Syscall}
    (hx : x.verdict = some (c.server.fd, b)) (hl : c.log = l ++ [x]) (hb : b = true → status = .succeeded) :
    Settled c status := by
  refine ⟨b, ?_, hb⟩
  rw [hl, verdicts_append, hv, verdicts_singleton, hx]
  rfl

theorem requestRead_attempt {ms h u : List UInt8} (live : Live c fd opRead none) (g : Greeted c ms h u)
    (r : RequestReading c u) (hk : k.fd = fd) (hv : verdicts c.log = []) :
    Attempt (settle k .requestRead (requestRead k c).1 (requestRead k c).2.toNat) (requestRead k c).2 := by
  have htries := requestRead_tries (k := k) r.requestFd
  have ho := requestRead_outcome live g r hk
  generalize requestRead k c = r' at htries ho
  cases ho with
  | ended c' => trivial
  | more c' u live' g' r'' more =>
    rcases htries with ⟨hc, -⟩ | ⟨hne, -⟩
    · exact (calls_verdicts hc).trans hv
    · exact absurd rfl hne
  | complete r' c₁ q complete outcome read newFd status server =>
    cases outcome with
    | unsupported c' cmd live' g' => exact fun hne => absurd g'.drained hne
    | domain c' cmd atyp live' g' => exact fun hw => absurd hw (not_waits_live (live_machine live' _))
    | connect _ cmd atyp c₂ outcome newFd' status' carries =>
      cases outcome with
      | failed c' => trivial
      | stuck c' live' => exact fun hw => absurd hw (not_waits_live (live_machine live' _))
      | waiting c' m live' g' parser st why =>
        intro _
        change verdicts c'.log = []
        rcases htries with ⟨hc, -⟩ | ⟨-, d, a, n, hc, hlog⟩
        · exact (calls_verdicts hc).trans hv
        · have hnone : (Syscall.connect c'.server.fd a n k.sys.connect).verdict = none := by
            rw [why.2]
            rfl
          rw [hlog, verdicts_append, (calls_verdicts hc).trans hv, verdicts_singleton, hnone]
          rfl
      | refused c' m errno live' r'' output parser why =>
        intro _
        obtain ⟨-, hcall, hne⟩ := why
        rcases htries with ⟨-, hout⟩ | ⟨-, d, a, n, hc, hlog⟩
        · -- a reply has been queued, and there was none
          rw [hout rfl, g.drained] at output
          exact absurd output.symm (List.cons_ne_nil _ _)
        · have hfailed : (Syscall.connect c'.server.fd a n k.sys.connect).verdict = some (c'.server.fd, false) := by
            rw [hcall]
            exact if_neg hne
          exact settled_verdicts (c := c') ((calls_verdicts hc).trans hv) hfailed hlog (by simp)

theorem requestConnecting_goes {ms h q : List UInt8} {m : Nat} (live : Live c fd opNoop (some (m, opWrite)))
    (g : Greeted c ms h q) (connect : IsConnect q) (carries : Carries c.request.parser.request q)
    (status : c.request.status = .generalSocksServerFailure) :
    Goes k fd .requestConnecting (requestConnecting k c) := by
  cases hs : k.sys.getsockopt with
  | none =>
    obtain ⟨c', hc', -, hp⟩ := requestConnecting_waiting live g connect carries status hs
    exact hc' ▸ goes_stay hp
  | some error =>
    obtain ⟨c', hc', hl, hr, -⟩ := requestConnecting_settled live g connect carries status hs
    exact hc' ▸ goes_to (by decide) (.replying ms h q m opRead (Or.inr rfl) hl hr)

theorem requestConnecting_attempt {ms h q : List UInt8} {m : Nat} (live : Live c fd opNoop (some (m, opWrite)))
    (g : Greeted c ms h q) (connect : IsConnect q) (carries : Carries c.request.parser.request q)
    (status : c.request.status = .generalSocksServerFailure) (hv : verdicts c.log = []) :
    Attempt (settle k .requestConnecting (requestConnecting k c).1 (requestConnecting k c).2.toNat)
      (requestConnecting k c).2 := by
  obtain ⟨hlog, hfd⟩ := requestConnecting_asks (k := k) (c := c)
  cases hs : k.sys.getsockopt with
  | none =>
    obtain ⟨c', hc', -⟩ := requestConnecting_waiting live g connect carries status hs
    rw [hc', hs] at hlog
    rw [hc']
    intro _
    change verdicts c'.log = []
    rw [hlog, verdicts_append, hv]
    rfl
  | some error =>
    obtain ⟨c', hc', -⟩ := requestConnecting_settled live g connect carries status hs
    have hstatus : error = 0 → (requestConnecting k c).1.request.status = .succeeded := by
      intro he
      unfold requestConnecting
      grind [Conn.note, Conn.setInterest, queueReply]
    rw [hc', hs] at hlog
    rw [hc'] at hfd hstatus ⊢
    intro _
    refine settled_verdicts (c := c') hv ?_ hlog fun hb => hstatus (of_decide_eq_true hb)
    rw [Syscall.verdict, hfd]

theorem settled_calls (h : Calls c c') (hfd : c'.server.fd = c.server.fd) (hs : Settled c status) :
    Settled c' status := by
  obtain ⟨b, hv, hb⟩ := hs
  exact ⟨b, by rw [calls_verdicts h, hfd, hv], hb⟩

theorem requestWrite_attempt {ms h q : List UInt8} {m : Nat} {j : FdInterest}
    (live : Live c fd opWrite (some (m, j))) (r : Replying c ms h q) (hk : k.fd = fd)
    (hs : Settled c c.request.status) :
    Attempt (settle k .requestWrite (requestWrite k c).1 (requestWrite k c).2.toNat) (requestWrite k c).2 := by
  have hcalls := requestWrite_calls k c
  by_cases hd : Drains c.output k.sys.send
  · obtain ⟨l, b, hsend, hb⟩ := hd
    obtain ⟨sel, hw, -⟩ := requestWrite_drained live hk hsend hb
    rw [hw] at hcalls ⊢
    obtain ⟨atyp, addr, port, hq⟩ := r.connect
    refine ⟨c.request.status, settled_calls hcalls rfl hs, selectedMethod ms, _, atyp, addr, port, q, hq, ?_⟩
    show _ <+: sentOn c.clientFd (c.log ++ [.send k.fd (some l)])
    have hto := toClient_send (c := c) (sendFrom_some hsend).1
    rw [hb, List.append_nil, r.sending] at hto
    rw [hk, ← live.clientFd, hto]
  · unfold requestWrite at hcalls ⊢
    cases hsend : sendFrom c.output k.sys.send with
    | none => trivial
    | some lb =>
      obtain ⟨l, b⟩ := lb
      have hpending : bufferCanRead b = true := by
        rw [← Bool.not_eq_false]
        exact fun h => hd ((not_canRead_of_drains hsend).mp h)
      simp only [hsend, hpending, ite_true] at hcalls ⊢
      exact fun _ => settled_calls hcalls rfl hs

theorem copy_calls {g : Key → Conn → Except Fault (Conn × Nat)} {n : Nat} (hh : handlerOf .copy e.ready = some g)
    (hg : g k c = .ok (c', n)) : Calls c c' := by
  cases hr : e.ready with
  | read =>
    rw [hr] at hh
    obtain rfl : mayFault copyRead = g := Option.some.inj hh
    obtain ⟨st, hst, -⟩ := mayFault_ok hg
    exact copyRead_calls hst
  | write =>
    rw [hr] at hh
    obtain rfl : mayFault copyWrite = g := Option.some.inj hh
    obtain ⟨st, hst, -⟩ := mayFault_ok hg
    exact copyWrite_calls hst

theorem copy_kept {ms h q : List UInt8} {i j : FdInterest} {m : Nat} (live : Live c fd i (some (m, j)))
    (r : Copying c ms h q) (hs : Selects c e) :
    ∃ r', callbackStep c .copy e = .ok (settle e.key .copy r'.1 r'.2.toNat) ∧ Goes e.key fd .copy r' ∧
      (r'.2 = .copy ∨ r'.2 = .done) ∧ Calls c r'.1 ∧ r'.1.clientFd = c.clientFd ∧ r'.1.server.fd = c.server.fd := by
  obtain ⟨g, s, d, r', hh, -, hrel, hfin, hg, hgo, hr⟩ := copy_event live r hs
  have hlive := hrel.live i j live
  obtain ⟨sel, hend, -⟩ := copyFinish_live hlive s
  have hr' := Except.ok.inj (hfin.symm.trans hend)
  refine ⟨r', callbackStep_ok hh hg hgo, hgo, hr, copy_calls hh hg, ?_, ?_⟩
  · rw [hr']
    exact hlive.clientFd.trans live.clientFd.symm
  · rw [hr']
    exact (hlive.serverFd m j rfl).trans (live.serverFd m j rfl).symm

theorem settle_log {r : SessionState} (hr : r ≠ .error ∧ r ≠ .done) : (settle k st c r.toNat).log = c.log := by
  have hfinal : ¬ (r.toNat = SessionState.error.toNat ∨ r.toNat = SessionState.done.toNat) := by
    rintro (h | h)
    · exact hr.1 (toNat_inj h)
    · exact hr.2 (toNat_inj h)
  simp only [settle, hfinal, ite_false]
  split
  · rfl
  · cases r <;> rfl

theorem early_attempt {r : SessionState} (hv : verdicts c.log = [])
    (hr : r = .helloRead ∨ r = .helloWrite ∨ r = .requestRead ∨ r = .error) :
    Attempt (settle k st c r.toNat) r := by
  have hlog : r ≠ .error → r ≠ .done → verdicts (settle k st c r.toNat).log = [] := by
    intro h h'
    rw [settle_log ⟨h, h'⟩, hv]
  rcases hr with rfl | rfl | rfl | rfl
  · exact hlog (by decide) (by decide)
  · exact hlog (by decide) (by decide)
  · exact hlog (by decide) (by decide)
  · trivial

theorem attempted_event (h : Attempted c) (hst : InState c st) (hp : Phase c fd st) (hf : c.freed = false)
    (hs : Selects c e) (hc : callbackStep c st e = .ok c') : Attempted c' := by
  have hatt := h hf st hst
  have hfin := phase_not_final hp
  -- a callback leaves what is known in the state that it returns
  have hsettle : ∀ f : Key → Conn → Conn × SessionState, handlerOf st e.ready = some (returning f) →
      Goes e.key fd st (f e.key c) → Attempt (settle e.key st (f e.key c).1 (f e.key c).2.toNat) (f e.key c).2 →
      Attempted c' := by
    intro f hh hgo hret
    rw [callbackStep_ok hh rfl hgo, Except.ok.injEq] at hc
    exact hc ▸ attempted_settle hfin hgo hret
  have hnone : handlerOf st e.ready = none → Attempted c' := by
    intro hh
    rw [callbackStep_none hh] at hc
    cases hc
  cases hp with
  | helloRead live r =>
    obtain ⟨he, hr⟩ := selects_opRead live hs
    refine hsettle helloRead (by rw [hr]; rfl) (helloRead_goes live r (key_client he)) ?_
    refine early_attempt ((calls_verdicts (helloRead_calls e.key c)).trans hatt) ?_
    have hnext := helloRead_next e.key c
    simp only [nextStates, List.mem_cons, List.not_mem_nil, or_false] at hnext
    tauto
  | helloWrite ms h' live w =>
    obtain ⟨he, hr⟩ := selects_opWrite live hs
    have hh : handlerOf .helloWrite e.ready = some (returning helloWrite) := by rw [hr]; rfl
    -- AUTH_READ is no state of the table, so this callback does not return
    by_cases ha : (helloWrite e.key c).2 = .authRead
    · rw [callbackStep_authRead hh ha] at hc
      cases hc
    refine hsettle helloWrite hh (helloWrite_goes live w (key_client he) ha) ?_
    refine early_attempt ((calls_verdicts (helloWrite_calls e.key c)).trans hatt) ?_
    have hnext := helloWrite_next ha
    simp only [nextStates, List.mem_cons, List.not_mem_nil, or_false] at hnext
    tauto
  | requestRead ms h' u live g r =>
    obtain ⟨he, hr⟩ := selects_opRead live hs
    exact hsettle requestRead (by rw [hr]; rfl) (requestRead_goes (requestRead_outcome live g r (key_client he)))
      (requestRead_attempt live g r (key_client he) hatt)
  | connecting ms h' q m live g connect carries status =>
    obtain ⟨he, hr⟩ := selects_waiting live hs
    exact hsettle requestConnecting (by rw [hr]; rfl) (requestConnecting_goes live g connect carries status)
      (requestConnecting_attempt live g connect carries status (hatt (waits_live live)))
  | stuck ms h' q live g request server => exact hnone (by rw [(selects_opRead live hs).2]; rfl)
  | unsupported ms h' q live g request => exact hnone (by rw [(selects_opRead live hs).2]; rfl)
  | replying ms h' q m j hj live r =>
    rcases selects_live live hs with ⟨he, hr⟩ | ⟨j', hj', hr⟩
    · have hw := (has_opWrite _).mp hr
      have ho := requestWrite_outcome live r (key_client he)
      exact hsettle requestWrite (by rw [hw]; rfl) (requestWrite_goes hj ho)
        (requestWrite_attempt live r (key_client he) (hatt r.pending))
    · obtain ⟨-, rfl⟩ := Prod.mk.inj (Option.some.inj hj')
      rcases hj with rfl | rfl
      · rw [has_opNoop] at hr; cases hr
      · exact hnone (by rw [(has_opRead _).mp hr]; rfl)
  | copying ms h' q i m j live r =>
    obtain ⟨r', hcall, hgo, hr, hcalls, hfd, hserver⟩ := copy_kept live r hs
    rw [hcall, Except.ok.injEq] at hc
    subst hc
    refine attempted_settle (by decide) hgo ?_
    obtain ⟨d, ret⟩ := r'
    rcases hr with rfl | rfl
    · obtain ⟨status, hset, hsent⟩ := hatt
      exact ⟨status, settled_calls hcalls hserver hset, replySent_prefix hfd (calls_sent hcalls _) hsent⟩
    · trivial

theorem attempted_step (c : Conn) (s : Step) (c' : Conn) (h : Sound c ∧ Attempted c) (hc : step c s = .ok c') :
    Sound c' ∧ Attempted c' := by
  obtain ⟨hsound, hatt⟩ := h
  refine ⟨step_sound c s c' hsound hc, ?_⟩
  cases s with
  | event e =>
    by_cases hlive : c.freed = false ∧ Selects c e
    · obtain ⟨hf, hs⟩ := hlive
      obtain ⟨fd, st, hst, hp⟩ := hsound.inv.resolve_left (by rw [hf]; decide)
      rw [step, dispatch_inState hst hf, if_pos hs] at hc
      exact attempted_event hatt hst hp hf hs hc
    · exact dispatch_unselected hlive hc ▸ hatt
  | other x a =>
    simp only [step, Except.ok.injEq] at hc
    subst hc
    split
    · exact hatt
    · rename_i hno
      rw [not_or] at hno
      intro hf
      obtain ⟨fd, st, hst, hp⟩ := hsound.inv.resolve_left (by rw [show c.freed = false from hf]; decide)
      exact attempted_other hst hp hno.1 hno.2 hatt hf

/-! ## Replies -/

/-- The reply is told by its bytes. -/
theorem replyTo_append {status' : SocksResponseStatus} {cmd atyp cmd' atyp' : UInt8}
    {addr port addr' port' q q' r r' : List UInt8} (hq : IsRequest cmd atyp addr port q)
    (hq' : IsRequest cmd' atyp' addr' port' q') (h : replyTo status q ++ r = replyTo status' q' ++ r') :
    status = status' ∧ r = r' := by
  obtain ⟨rsv, he⟩ := hq.1
  obtain ⟨rsv', he'⟩ := hq'.1
  rw [he, he'] at h
  simp only [replyTo, List.drop_succ_cons, List.drop_zero, List.cons_append, List.nil_append, List.cons.injEq,
    true_and] at h
  obtain ⟨hs, rfl, h⟩ := h
  exact ⟨toByte_inj hs, (List.append_inj h (isRequest_addr_length hq hq')).2⟩

theorem replySent_short (h : ReplySent c status) : 10 ≤ (sentOn c.clientFd c.log).length := by
  obtain ⟨m, cmd, atyp, addr, port, q, hq, hp⟩ := h
  have hlen := hp.length_le
  have := isRequest_length hq
  rw [List.length_append, length_replyTo status hq] at hlen
  omega

/-- While the session is open, a whole reply has been sent only in COPY. -/
theorem replySent_phase (hp : Phase c fd st) (h : ReplySent c status) : st = .copy := by
  have hlong := replySent_short h
  have hshort : ∀ {l : List UInt8}, c.toClient = l → l.length < 10 → st = .copy := by
    intro l hl hlt
    have : (sentOn c.clientFd c.log).length ≤ c.toClient.length := by
      rw [Conn.toClient, List.length_append]
      omega
    rw [hl] at this
    omega
  cases hp with
  | helloRead live r => exact hshort r.sent (by decide)
  | helloWrite ms h' live w => exact hshort w.sending (by simp)
  | requestRead ms h' u live g r => exact hshort g.sent (by simp)
  | connecting ms h' q m live g => exact hshort g.sent (by simp)
  | stuck ms h' q live g => exact hshort g.sent (by simp)
  | unsupported ms h' q live g => exact hshort g.sent (by simp)
  | copying => rfl
  | replying ms h' q m j hj live r =>
    -- bytes of the reply are still to be sent
    obtain ⟨n, cmd, atyp, addr, port, q', hq', t, ht⟩ := h
    obtain ⟨atyp', addr', port', hq⟩ := r.connect
    have hsending := r.sending
    rw [Conn.toClient, ← ht, List.append_assoc, List.append_assoc] at hsending
    obtain ⟨-, h⟩ := List.append_inj hsending rfl
    have hnil := (replyTo_append hq' hq (h.trans (List.append_nil _).symm)).2
    exact absurd (List.append_eq_nil_iff.mp hnil).2 r.pending

theorem connects_sound (h : Sound c ∧ Attempted c) : Connects c ↔ AtState .copy (fun c => ¬ ConnectFailed c) c := by
  obtain ⟨hsound, hatt⟩ := h
  by_cases hf : c.freed = false
  · obtain ⟨fd, st, hst, hp⟩ := hsound.inv.resolve_left (by rw [hf]; decide)
    constructor
    · intro hc _ hat
      obtain rfl := toNat_inj ((stmState_inState hst).symm.trans hat)
      obtain ⟨status, hset, -⟩ := hatt hf _ hst
      rw [settled_failed hset, not_not]
      exact (hc.entered hf hat).2
    · intro hok
      have hcopy : st = .copy → ReplySent c .succeeded ∧ Connected c := by
        rintro rfl
        obtain ⟨status, hset, hsent⟩ := hatt hf _ hst
        have hconn : Connected c := by
          rw [← not_not (a := Connected c), ← settled_failed hset]
          exact hok hf (stmState_inState hst)
        obtain ⟨b, hv, hb⟩ := hset
        have htrue : b = true := by
          unfold Connected at hconn
          rw [hv, List.mem_singleton] at hconn
          exact (Prod.mk.inj hconn).2.symm
        exact ⟨hb htrue ▸ hsent, hconn⟩
      -- a reply that has been sent is the one of the phase, for both begin the same stream
      refine ⟨fun _ hat => hcopy (toNat_inj ((stmState_inState hst).symm.trans hat)), fun status hne hsent => ?_⟩
      obtain ⟨⟨n, cmd, atyp, addr, port, q, hq, t, ht⟩, -⟩ := hcopy (replySent_phase hp hsent)
      obtain ⟨n', cmd', atyp', addr', port', q', hq', t', ht'⟩ := hsent
      have he := ht.trans ht'.symm
      rw [List.append_assoc, List.append_assoc] at he
      have hreply := (List.append_inj he rfl).2
      exact absurd (replyTo_append hq hq' hreply).1.symm hne
  · rw [Bool.not_eq_false] at hf
    exact iff_of_true ⟨atState_freed hf, fun _ _ _ => hf⟩ (atState_freed hf)

theorem event_connects (hst : InState c st) (hp : Phase c fd st) (hs : Selects c e)
    (hq : AtState .copy (fun c => ¬ ConnectFailed c) c) :
    (∀ c', callbackStep c st e = .ok c' → AtState .copy (fun c => ¬ ConnectFailed c) c') ↔ EntersConnected c e := by
  have haway : SessionState.copy ∉ nextStates st → ∀ c', callbackStep c st e = .ok c' →
      AtState .copy (fun c => ¬ ConnectFailed c) c' := fun hno _ => callbackStep_elsewhere hp hs hno
  have helse : st ≠ .requestWrite → EntersConnected c e :=
    fun hne hlast => absurd (inState_of_current hst hlast.1) hne
  cases hp with
  | helloRead | helloWrite | requestRead | connecting | stuck =>
    exact iff_of_true (haway (by decide)) (helse (by decide))
  | unsupported ms h' q live g request =>
    obtain ⟨-, hr⟩ := selects_opRead live hs
    refine iff_of_true ?_ fun hlast => absurd (hr.symm.trans hlast.2.1) (by decide)
    rw [callbackStep_none (by rw [hr]; rfl)]
    simp
  | replying ms h' q m j hj live r =>
    rw [entersCopy_iff hst hj live r hs]
    refine forall_congr' fun hlast => not_congr ?_
    have hk := reply_client hj live hs hlast.2.1
    obtain ⟨-, -, -, -, -, ⟨l, b, -, -, hlog⟩, -⟩ := copyEntry_live live hk hlast.2.2
    -- sending the reply asks the system nothing about the connection
    have hv := calls_verdicts (calls_note rfl hlog)
    unfold ConnectFailed
    rw [hv]
  | copying ms h' q i m j live r =>
    obtain ⟨r', hcall, hgo, hr, hcalls, -⟩ := copy_kept live r hs
    refine iff_of_true ((callbackStep_forall hcall).mpr ?_) (helse (by decide))
    rcases hr with hr | hr
    · have hsettle := settle_atState (P := fun c => ¬ ConnectFailed c) hgo (by rw [hr]; decide)
      rw [hr] at hsettle ⊢
      refine hsettle.mpr ?_
      have hv : verdicts (settle e.key .copy r'.1 SessionState.copy.toNat).log = verdicts c.log :=
        (congrArg verdicts (settle_log (by decide))).trans (calls_verdicts hcalls)
      unfold ConnectFailed
      rw [hv]
      exact hq live.alive (stmState_inState hst)
    · exact settle_elsewhere (by decide) hgo (by rw [hr]; decide)

/-- In a run from a new connection, the session relays only after a reply that
its origin is connected, and is closed after any other, exactly when no step
sends the last byte of a reply after `connect` has failed with another error than
EINPROGRESS, or the attempt has ended with an error. -/
theorem connects_iff (a : Accepted) (es : List Step) :
    Always step Connects a.conn es ↔ Along step (OnEvent EntersConnected) a.conn es := by
  have hstart : Attempted a.conn := by
    intro _ st hst
    have hfirst : InState a.conn .helloRead := Or.inr ⟨rfl, rfl, rfl⟩
    exact inState_unique hfirst hst ▸ (rfl : verdicts a.conn.log = [])
  rw [always_congr attempted_step (fun _ => connects_sound) es ⟨accepted_sound a, hstart⟩]
  exact always_onEvent (Q := AtState .copy fun c => ¬ ConnectFailed c) (fun _ => atState_freed)
    (fun _ _ _ _ _ _ _ _ _ h => h) (fun _ _ _ _ _ hst hp _ hs hq => event_connects hst hp hs hq) a es
    fun _ h => absurd (show stmState stmCreate = SessionState.copy.toNat from h) (by decide)

end

/-- A client whose origin refuses the connection. -/
def refusedEvents : List Step :=
  [reads 5 [0x05, 1, 0x00] .failed, writes 5 2 .failed,
    reads 5 [0x05, 0x01, 0x00, 0x01, 127, 0, 0, 1, 0, 80]
      { Answers.failed with socket := some 8, fcntl := true, connect := some ECONNREFUSED },
    writes 5 10 .failed]

theorem refused_not_connects : ¬ Always step Connects firstAccepted.conn refusedEvents := by
  intro h
  have hr : run step firstAccepted.conn refusedEvents = .ok (final step firstAccepted.conn refusedEvents) :=
    run_final (by decide +kernel)
  have hconn := ((always_run h hr).entered (by decide +kernel) (by decide +kernel)).2
  exact absurd hconn (by unfold Connected; decide +kernel)

end SocksProxy
