import Mathlib.Data.List.Forall2
import Mathlib.Logic.Relation
import SocksProxy.Lib.Run

/-!
# Parties that share a state

A system is made of parties, each with a part of its own, over a state that
they share. `Reaches` says how far a party comes by its own steps, what the
others do to the shared state being among them; by `run_refines` an object in
the shared state answers the parties' calls one after the other. A party
touches only what it holds and what nobody holds (`Leased`), so that it touches
nothing of another's.
-/

namespace Lib

/-! ## The runs of one party -/

section
variable {σ ε φ π : Type*} (step : σ → ε → Except φ σ)

def Reaches (s t : σ) : Prop := ∃ es, run step s es = .ok t

variable {step} {s t u : σ}

theorem reaches_refl (s : σ) : Reaches step s s := ⟨[], rfl⟩

theorem reaches_trans (h : Reaches step s t) (h' : Reaches step t u) : Reaches step s u := by
  obtain ⟨es, hes⟩ := h
  obtain ⟨es', hes'⟩ := h'
  exact ⟨es ++ es', run_append.mpr ⟨t, hes, hes'⟩⟩

theorem reaches_step {e : ε} (h : Reaches step s t) (he : step t e = .ok u) : Reaches step s u := by
  obtain ⟨es, hes⟩ := h
  exact ⟨es ++ [e], run_snoc.mpr ⟨t, hes, he⟩⟩

theorem reaches_invariant {I : σ → Prop} (hstep : ∀ s e s', I s → step s e = .ok s' → I s') (hs : I s)
    (h : Reaches step s t) : I t := by
  obtain ⟨es, hes⟩ := h
  exact run_invariant hstep hs hes

/-- An invariant that a step keeps when it satisfies `P`. -/
theorem run_along {I : σ → Prop} {P : σ → ε → Prop} {es : List ε}
    (hstep : ∀ s e s', I s → P s e → step s e = .ok s' → I s') (hs : I s) (hp : Along step P s es)
    (hr : run step s es = .ok t) : I t := by
  induction es generalizing s with
  | nil => rw [run_nil, Except.ok.injEq] at hr; exact hr ▸ hs
  | cons e es ih =>
    obtain ⟨u, hu, hr⟩ := run_cons_ok.mp hr
    exact ih (hstep _ _ _ hs hp.1 hu) (hp.2 u hu) hr

/-- What is known of a state and the steps that led to it, when each of them
satisfies `P`. -/
theorem history_along {H : List ε → σ → Prop} {P : σ → ε → Prop} {es : List ε} (hs : H [] s)
    (hstep : ∀ es u e v, run step s es = .ok u → H es u → P u e → step u e = .ok v → H (es ++ [e]) v)
    (hp : Along step P s es) (hr : run step s es = .ok t) : H es t := by
  induction es using List.reverseRecOn generalizing t with
  | nil => rw [run_nil, Except.ok.injEq] at hr; exact hr ▸ hs
  | append_singleton es e ih =>
    obtain ⟨u, hu, he⟩ := run_snoc.mp hr
    have hpre := (along_append hp).1
    exact hstep es u e t hu (ih hpre hu) (along_last hp hu) he

theorem run_append_of_ok {es : List ε} (es' : List ε) (h : run step s es = .ok t) :
    run step s (es ++ es') = run step t es' := by
  induction es generalizing s with
  | nil => rw [run_nil, Except.ok.injEq] at h; exact h ▸ rfl
  | cons e es ih =>
    obtain ⟨u, hu, hr⟩ := run_cons_ok.mp h
    rw [List.cons_append, run_cons_of_ok _ hu]
    exact ih hr

/-- What the others do to the shared state, one action after the other, the
party sees as steps of its own. -/
theorem reaches_shared {R : π → π → Prop} {f : π → σ} (hR : ∀ p q, R p q → ∃ e, step (f p) e = .ok (f q)) {p q : π}
    (h : Relation.ReflTransGen R p q) : Reaches step (f p) (f q) := by
  induction h with
  | refl => exact reaches_refl _
  | tail _ hq ih =>
    obtain ⟨e, he⟩ := hR _ _ hq
    exact reaches_step ih he

end

/-! ## What the steps do to an object -/

section
variable {σ ε φ β μ κ ρ : Type*} {step : σ → ε → Except φ σ}

/-- What the steps of a run put down, one after the other. -/
def gather (f : σ → ε → List β) (step : σ → ε → Except φ σ) : σ → List ε → List β
  | _, [] => []
  | s, e :: es =>
    match step s e with
    | .ok t => f s e ++ gather f step t es
    | .error _ => []

variable {f : σ → ε → List β} {s t u : σ} {es : List ε} {e : ε}

theorem gather_cons (es : List ε) (h : step s e = .ok t) :
    gather f step s (e :: es) = f s e ++ gather f step t es := by
  simp only [gather, h]

/-- The state refines an object when each step does to the object, and answers,
what the calls that it puts down ask for: so does a run then. -/
theorem run_refines {R : σ → μ → Prop} {P : σ → ε → Prop} {C : κ → β → Prop} {answer : β → ρ}
    {spec : μ → κ → μ × List ρ}
    (hstep : ∀ s e t m calls, R s m → P s e → step s e = .ok t → List.Forall₂ C calls (f s e) →
      R t (transduce spec m calls).1 ∧ (f s e).map answer = (transduce spec m calls).2)
    {m : μ} {calls : List κ} (hm : R s m) (hp : Along step P s es) (hr : run step s es = .ok t)
    (hc : List.Forall₂ C calls (gather f step s es)) :
    R t (transduce spec m calls).1 ∧ (gather f step s es).map answer = (transduce spec m calls).2 := by
  induction es generalizing s m calls with
  | nil =>
    rw [run_nil, Except.ok.injEq] at hr
    obtain rfl : calls = [] := List.forall₂_nil_right_iff.mp hc
    exact ⟨hr ▸ hm, rfl⟩
  | cons e es ih =>
    obtain ⟨u, hu, hr⟩ := run_cons_ok.mp hr
    rw [gather_cons es hu] at hc ⊢
    -- the calls of the first step, and those of the others
    have hfirst := List.forall₂_take_append calls _ _ hc
    have hrest := List.forall₂_drop_append calls _ _ hc
    obtain ⟨hm', hanswers⟩ := hstep s e u m _ hm hp.1 hu hfirst
    obtain ⟨hm'', hanswers'⟩ := ih hm' (hp.2 u hu) hr hrest
    have hcalls := transduce_append (f := spec) m (calls.take (f s e).length) (calls.drop (f s e).length)
    rw [List.take_append_drop] at hcalls
    rw [hcalls, List.map_append, hanswers, hanswers']
    exact ⟨hm'', rfl⟩

end

/-! ## What the parties hold -/

section
variable {ι ξ : Type*} {holds holds' : ι → ξ → Prop} {taken taken' : ξ → Prop}

/-- What is held is taken, and by one party. -/
structure Leased (holds : ι → ξ → Prop) (taken : ξ → Prop) : Prop where
  taken : ∀ p x, holds p x → taken x
  sole : ∀ p q x, holds p x → holds q x → p = q

/-- `p` has had its turn: it may have taken what was free, and nothing was
taken away from the others. -/
structure TookTurn (p : ι) (holds holds' : ι → ξ → Prop) (taken taken' : ξ → Prop) : Prop where
  own : ∀ x, holds' p x → (holds p x ∨ ¬ taken x) ∧ taken' x
  others : ∀ q x, q ≠ p → holds' q x → holds q x
  kept : ∀ x, taken x → ¬ holds p x → taken' x

theorem leased_turn {p : ι} (h : Leased holds taken) (ht : TookTurn p holds holds' taken taken') :
    Leased holds' taken' := by
  have hother : ∀ q x, q ≠ p → holds' q x → holds q x ∧ ¬ holds p x := by
    intro q x hq hx
    have hqx := ht.others q x hq hx
    exact ⟨hqx, fun hpx => hq (h.sole q p x hqx hpx)⟩
  have hown : ∀ q x, q ≠ p → holds' q x → ¬ holds' p x := by
    intro q x hq hx hpx
    obtain ⟨hqx, hno⟩ := hother q x hq hx
    rcases (ht.own x hpx).1 with hp | hfree
    · exact hno hp
    · exact hfree (h.taken q x hqx)
  constructor
  · intro q x hx
    by_cases hq : q = p
    · subst hq
      exact (ht.own x hx).2
    · obtain ⟨hqx, hno⟩ := hother q x hq hx
      exact ht.kept x (h.taken q x hqx) hno
  · intro q r x hq hr
    by_cases hqp : q = p
    · by_cases hrp : r = p
      · rw [hqp, hrp]
      · subst hqp
        exact absurd hq (hown r x hrp hr)
    · by_cases hrp : r = p
      · subst hrp
        exact absurd hr (hown q x hqp hq)
      · exact h.sole q r x (hother q x hqp hq).1 (hother r x hrp hr).1

/-- What a party may touch is not held by another. -/
theorem leased_foreign {p q : ι} {x : ξ} (h : Leased holds taken) (hq : q ≠ p) (hx : holds p x ∨ ¬ taken x) :
    ¬ holds q x := by
  intro hqx
  rcases hx with hp | hfree
  · exact hq (h.sole q p x hqx hp)
  · exact hfree (h.taken q x hqx)

end

end Lib
