import SocksProxy.Confine
import SocksProxy.Outcome

/-!
# What a management connection touches

An event on a connection of the service makes its calls on the descriptor of
the client, and acts on this one alone (`PrawtosMoved`).
-/

namespace SocksProxy

open Lib

/-! ## A callback -/

structure PrawtosConfined (fd : Int) (c d : PrawtosConn) : Prop where
  self : d.self = c.self
  clientFd : d.clientFd = c.clientFd
  freed : d.freed = c.freed
  openFds : d.openFds = c.openFds
  log : ∃ l, d.log = c.log ++ l ∧ ∀ s ∈ l, s.on = fd
  acts : Acts (· = fd) (.prawtos c.self) c.toProcess d.toProcess
  sel : ∀ p, OnlyAdds p c.sel d.sel

section
variable {fd : Int} {c d x : PrawtosConn}

theorem prawtosConfined_trans (h : PrawtosConfined fd c d) (h' : PrawtosConfined fd d x) :
    PrawtosConfined fd c x where
  self := h'.self.trans h.self
  clientFd := h'.clientFd.trans h.clientFd
  freed := h'.freed.trans h.freed
  openFds := h'.openFds.trans h.openFds
  log := by
    obtain ⟨l, hl, hon⟩ := h.log
    obtain ⟨l', hl', hon'⟩ := h'.log
    refine ⟨l ++ l', by rw [hl', hl, List.append_assoc], fun s hs => ?_⟩
    exact (List.mem_append.mp hs).elim (hon s) (hon' s)
  acts := h.acts.trans (h.self ▸ h'.acts)
  sel := fun p => onlyAdds_trans (h.sel p) (h'.sel p)

theorem prawtosConfined_same (hself : d.self = c.self) (hclient : d.clientFd = c.clientFd)
    (hfreed : d.freed = c.freed) (hlog : d.log = c.log) (hprocess : d.toProcess = c.toProcess) :
    PrawtosConfined fd c d :=
  ⟨hself, hclient, hfreed, congrArg Process.openFds hprocess,
    ⟨[], by rw [hlog, List.append_nil], fun _ hs => absurd hs List.not_mem_nil⟩,
    hprocess ▸ Relation.ReflTransGen.refl, fun p => congrArg Process.sel hprocess ▸ onlyAdds_refl p _⟩

theorem prawtosConfined_rule : PrawtosRuleOn fd (PrawtosConfined fd) where
  trans := prawtosConfined_trans
  note := fun c s hs =>
    ⟨rfl, rfl, rfl, rfl, ⟨[s], rfl, fun t ht => by rw [List.mem_singleton] at ht; exact ht ▸ hs⟩,
      Relation.ReflTransGen.refl, fun p => onlyAdds_refl p _⟩
  setInterest := fun c i =>
    ⟨rfl, rfl, rfl, rfl, ⟨[], (List.append_nil _).symm, fun _ hs => absurd hs List.not_mem_nil⟩,
      acts_once (a := .setInterest i) rfl trivial, fun p => onlyAdds_setInterest p _ _ _⟩
  own := fun h => prawtosConfined_same h.self h.clientFd h.freed h.log h.process

theorem cmdProcess_confined {heap : Heap} {ret : PrawtosState} (h : cmdProcess heap c = .ok (d, ret)) :
    PrawtosConfined fd c d := by
  obtain ⟨hok, -⟩ := cmdProcess_ok h
  exact prawtosConfined_same hok.self hok.clientFd hok.freed hok.log hok.process

end

/-! ## An event -/

/-- What an event has done. Only `prawtos_done` closes the descriptor. -/
structure PrawtosMoved (c d : PrawtosConn) : Prop where
  self : d.self = c.self
  clientFd : d.clientFd = c.clientFd
  openFds : d.openFds = if d.freed = true then c.openFds.erase c.clientFd else c.openFds
  log : ∃ l, d.log = c.log ++ l ∧ ∀ s ∈ l, s.on = c.clientFd
  acts : Acts (· = c.clientFd) (.prawtos c.self) c.toProcess d.toProcess

section
variable {c d : PrawtosConn}

theorem prawtosMoved_refl (hf : c.freed = false) : PrawtosMoved c c :=
  ⟨rfl, rfl, (if_neg (hf ▸ Bool.false_ne_true)).symm,
    ⟨[], (List.append_nil _).symm, fun _ hs => absurd hs List.not_mem_nil⟩, Relation.ReflTransGen.refl⟩

theorem prawtosMoved_confined (hf : c.freed = false) (h : PrawtosConfined c.clientFd c d) : PrawtosMoved c d :=
  ⟨h.self, h.clientFd, by rw [h.freed, hf, if_neg Bool.false_ne_true, h.openFds], h.log, h.acts⟩

theorem prawtosMoved_opens (h : PrawtosMoved c d) {x : Int} (hx : x ∈ c.openFds)
    (hne : d.freed = true → x ≠ c.clientFd) : x ∈ d.openFds := by
  rw [h.openFds]
  split
  · rename_i hf
    exact (List.mem_erase_of_ne (hne hf)).mpr hx
  · exact hx

/-- What `prawtos_done` does to the process, and its call. -/
theorem prawtosDone_moved (hf : c.freed = false) (hc : Carried c.sel c.clientFd (.prawtos c.self))
    (h : prawtosDone c = .ok d) : PrawtosMoved c d := by
  obtain ⟨hself, hfd, hfreed, -, -⟩ := prawtosDone_outcome hc h
  obtain ⟨hstatus, -, -⟩ := selectorUnregisterFd_used hc.1 hc.2.1
  unfold prawtosDone at h
  simp only at h
  split at h
  · generalize hr : selectorUnregisterFd c.sel c.clientFd = r at hstatus h
    obtain ⟨sel, status, item⟩ := r
    obtain ⟨rfl, rfl⟩ := Prod.mk.inj hstatus
    have hd := (Except.ok.inj h).symm
    refine ⟨hself, hfd, ?_, ?_, ?_⟩
    · rw [if_pos hfreed, hd]
      rfl
    · refine ⟨[.close c.clientFd], by rw [hd]; rfl, fun s hs => ?_⟩
      rw [List.mem_singleton] at hs
      exact hs ▸ rfl
    · have hsel : sel = (selectorUnregisterFd c.sel c.clientFd).1 := by rw [hr]
      have hprocess : d.toProcess =
          { (c.toProcess.act c.clientFd .unregister).act c.clientFd .closed with
            stats := prawtosDecrease c.stats } := by
        rw [hd, hsel]
        rfl
      have hact : ∀ (p : Process) (a : Action), a.By (.prawtos c.self) →
          Acts (· = c.clientFd) (.prawtos c.self) p (p.act c.clientFd a) :=
        fun p a ha => acts_once rfl ha
      rw [hprocess]
      exact (hact _ .unregister trivial).trans ((hact _ .closed trivial).trans (acts_count _))
  · exact Except.ok.inj h ▸ prawtosMoved_refl hf

theorem prawtosMoved_trans {x : PrawtosConn} (h : PrawtosConfined c.clientFd c x) (h' : PrawtosMoved x d) :
    PrawtosMoved c d where
  self := h'.self.trans h.self
  clientFd := h'.clientFd.trans h.clientFd
  openFds := by rw [h'.openFds, h.openFds, h.clientFd]
  log := by
    obtain ⟨l, hl, hon⟩ := h.log
    obtain ⟨l', hl', hon'⟩ := h'.log
    refine ⟨l ++ l', by rw [hl', hl, List.append_assoc], fun s hs => ?_⟩
    exact (List.mem_append.mp hs).elim (hon s) fun hs => (hon' s hs).trans h.clientFd
  acts := by
    have hacts := h'.acts
    rw [h.clientFd, h.self] at hacts
    exact h.acts.trans hacts

theorem prawtosDispatch_moved {e : PrawtosEvent} (hf : c.freed = false)
    (hc : Carried c.sel c.clientFd (.prawtos c.self)) (hk : PrawtosSelects c e → (e.fd : Int) = c.clientFd)
    (h : prawtosDispatch c e = .ok d) : PrawtosMoved c d := by
  by_cases hs : PrawtosSelects c e
  · rcases prawtosDispatch_ok h with rfl | ⟨st, g, x, y, z, ret, hg, hx, hcall, hz, m, -, hd⟩
    · exact prawtosMoved_refl hf
    have hrule : PrawtosRuleOn e.key.fd (PrawtosConfined c.clientFd) := hk hs ▸ prawtosConfined_rule
    have hcx : PrawtosConfined c.clientFd c x := by
      rcases hx with rfl | ⟨i, rfl⟩
      · exact prawtosRuleOn_refl hrule x
      · exact prawtosArrive_on hrule i
    have hyz : PrawtosConfined c.clientFd y z := by
      rcases hz with rfl | ⟨i, rfl⟩
      · exact prawtosRuleOn_refl hrule z
      · exact prawtosArrive_on hrule i
    have hxy := prawtosHandlerOf_on hrule cmdProcess_confined hg hcall
    have hcz : PrawtosConfined c.clientFd c { z with stm := m } :=
      prawtosConfined_trans (prawtosConfined_trans hcx (prawtosConfined_trans hxy hyz))
        (prawtosConfined_same rfl rfl rfl rfl rfl)
    split at hd
    · have hcarz : Carried z.sel z.clientFd (.prawtos z.self) := by
        rw [show z.clientFd = c.clientFd from hcz.clientFd, show z.self = c.self from hcz.self]
        exact carried_onlyAdds hc (hcz.sel none)
      exact prawtosMoved_trans hcz (prawtosDone_moved (c := { z with stm := m }) (hcz.freed.trans hf) hcarz hd)
    · exact hd ▸ prawtosMoved_confined hf hcz
  · rw [prawtosDispatch, if_neg hs, Except.ok.injEq] at h
    exact h ▸ prawtosMoved_refl hf

end

end SocksProxy
