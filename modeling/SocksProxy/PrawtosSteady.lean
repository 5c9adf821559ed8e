import SocksProxy.PrawtosFrame

/-!
# What the management callbacks keep of the read buffer and the counters

A callback leaves the read buffer rewound when it is empty and touches no
counter (`PrawtosSteady`); only the end of a connection does, and it counts no
bytes.
-/

namespace SocksProxy

open Lib

structure PrawtosSteady (c d : PrawtosConn) : Prop where
  readBuffer : Rewound c.readBuffer → Rewound d.readBuffer
  stats : d.stats = c.stats

theorem prawtosSteady_trans {c d e : PrawtosConn} (h : PrawtosSteady c d) (h' : PrawtosSteady d e) :
    PrawtosSteady c e :=
  ⟨fun hr => h'.readBuffer (h.readBuffer hr), h'.stats.trans h.stats⟩

theorem prawtosSteady_same {c d : PrawtosConn} (hbuffer : d.readBuffer = c.readBuffer)
    (hstats : d.stats = c.stats) :
    PrawtosSteady c d :=
  ⟨fun hr => hbuffer ▸ hr, hstats⟩

theorem prawtosSteady_rule : PrawtosRule PrawtosSteady where
  trans := prawtosSteady_trans
  note := fun _ _ => prawtosSteady_same rfl rfl
  setInterest := fun _ _ _ => prawtosSteady_same rfl rfl
  own := fun h => ⟨h.readBuffer, congrArg Process.stats h.process⟩

section
variable {k : PrawtosKey} {c d : PrawtosConn}

theorem cmdProcess_steady {heap : Heap} {ret : PrawtosState} (h : cmdProcess heap c = .ok (d, ret)) :
    PrawtosSteady c d := by
  obtain ⟨hok, -⟩ := cmdProcess_ok h
  exact prawtosSteady_same hok.readBuffer (congrArg Process.stats hok.process)

/-! ## An event -/

theorem prawtosHandlerOf_steady {st : PrawtosState} {r : Readiness} {n : Nat}
    {g : PrawtosKey → PrawtosConn → Except Fault (PrawtosConn × Nat)} (hh : prawtosHandlerOf st r = some g)
    (hg : g k c = .ok (d, n)) : PrawtosSteady c d :=
  prawtosHandlerOf_rel prawtosSteady_rule cmdProcess_steady hh hg

theorem prawtosArrive_steady (n : Nat) : PrawtosSteady c (arrive prawtosInitStates n k c) :=
  prawtosArrive_rel prawtosSteady_rule n

theorem prawtosDone_steady (h : prawtosDone c = .ok d) :
    d.readBuffer = c.readBuffer ∧ (d.stats = c.stats ∨ d.stats = prawtosDecrease c.stats) := by
  unfold prawtosDone at h
  simp only at h
  split at h
  · split at h
    · rw [← Except.ok.inj h]; exact ⟨rfl, Or.inr rfl⟩
    · cases h
  · rw [← Except.ok.inj h]; exact ⟨rfl, Or.inl rfl⟩

theorem prawtosDispatch_steady {st : PrawtosState} {e : PrawtosEvent} (hst : PrawtosInState c st)
    (hf : c.freed = false) (h : prawtosDispatch c e = .ok d) :
    (Rewound c.readBuffer → Rewound d.readBuffer) ∧ (d.stats = c.stats ∨ d.stats = prawtosDecrease c.stats) := by
  rw [prawtosDispatch_inState hst hf] at h
  split at h
  · unfold prawtosCallbackStep at h
    split at h
    · cases h
    · rename_i g hg
      split at h
      · cases h
      · rename_i c' ret hc'
        have hcall := prawtosHandlerOf_steady hg hc'
        split at h
        · cases h
        · have harrive : PrawtosSteady c
              { (if ret = st.toNat then c' else arrive prawtosInitStates ret e.key c') with
                stm := { prawtosStm with current := some ret } } := by
            split
            · exact prawtosSteady_trans hcall (prawtosSteady_same rfl rfl)
            · exact prawtosSteady_trans hcall
                (prawtosSteady_trans (prawtosArrive_steady ret) (prawtosSteady_same rfl rfl))
          unfold prawtosSettle at h
          simp only at h
          split at h
          · obtain ⟨h1, h2⟩ := prawtosDone_steady h
            rw [harrive.stats] at h2
            exact ⟨fun hr => h1 ▸ harrive.readBuffer hr, h2⟩
          · rw [← Except.ok.inj h]
            exact ⟨harrive.readBuffer, Or.inl harrive.stats⟩
  · rw [← Except.ok.inj h]
    exact ⟨fun hr => hr, Or.inl rfl⟩

end

end SocksProxy
