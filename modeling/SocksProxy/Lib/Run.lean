import Mathlib.Data.List.Basic
import Mathlib.Data.List.Induction
import Mathlib.Logic.Basic

/-!
# Runs of a fallible step function

A system is a step function that may end in a fault. `run` takes it over a
list of events; `Along` states a property of every step a run takes, and
`Always` one of every state it reaches. `run_invariant` is the induction of
every safety result, and `run_history` that of what depends on the events so
far; `along_iff` compares two properties of the steps while an invariant holds.
`tally` adds up a number over the steps.
-/

namespace Lib

section
variable {σ ε φ : Type*} (step : σ → ε → Except φ σ)

def run (s : σ) : List ε → Except φ σ
  | [] => .ok s
  | e :: es =>
    match step s e with
    | .ok s' => run s' es
    | .error f => .error f

/-- Every step of the run satisfies `P`, read in the state before it. -/
def Along (P : σ → ε → Prop) : σ → List ε → Prop
  | _, [] => True
  | s, e :: es => P s e ∧ ∀ s', step s e = .ok s' → Along P s' es

/-- Every state of the run satisfies `Q`. -/
def Always (Q : σ → Prop) : σ → List ε → Prop
  | s, [] => Q s
  | s, e :: es => Q s ∧ ∀ s', step s e = .ok s' → Always Q s' es

instance decidableAlong (P : σ → ε → Prop) [∀ s e, Decidable (P s e)] :
    ∀ (s : σ) (es : List ε), Decidable (Along step P s es)
  | _, [] => isTrue trivial
  | s, e :: es =>
    match hs : step s e with
    | .error _ => decidable_of_iff (P s e) ⟨fun hp => ⟨hp, fun _ h => by rw [hs] at h; cases h⟩, And.left⟩
    | .ok t =>
      have := decidableAlong P t es
      decidable_of_iff (P s e ∧ Along step P t es)
        ⟨fun h => ⟨h.1, fun _ ht => Except.ok.inj (hs.symm.trans ht) ▸ h.2⟩, fun h => ⟨h.1, h.2 t hs⟩⟩

@[simp] theorem run_nil (s : σ) : run step s [] = .ok s := rfl

variable {step}

theorem run_cons_of_ok {s s' : σ} {e : ε} (es : List ε) (h : step s e = .ok s') :
    run step s (e :: es) = run step s' es := by
  simp only [run, h]

theorem run_cons_ok {s t : σ} {e : ε} {es : List ε} :
    run step s (e :: es) = .ok t ↔ ∃ u, step s e = .ok u ∧ run step u es = .ok t := by
  cases h : step s e with
  | ok u => simp [run, h]
  | error f => simp [run, h]

theorem run_append {s t : σ} {es es' : List ε} :
    run step s (es ++ es') = .ok t ↔ ∃ u, run step s es = .ok u ∧ run step u es' = .ok t := by
  induction es generalizing s with
  | nil => simp
  | cons e es ih =>
    rw [List.cons_append, run_cons_ok]
    constructor
    · rintro ⟨u, hu, hr⟩
      obtain ⟨v, hv, hr⟩ := ih.mp hr
      exact ⟨v, run_cons_ok.mpr ⟨u, hu, hv⟩, hr⟩
    · rintro ⟨v, hv, hr⟩
      obtain ⟨u, hu, hv⟩ := run_cons_ok.mp hv
      exact ⟨u, hu, ih.mpr ⟨v, hv, hr⟩⟩

theorem run_snoc {s t : σ} {es : List ε} {e : ε} :
    run step s (es ++ [e]) = .ok t ↔ ∃ u, run step s es = .ok u ∧ step u e = .ok t := by
  rw [run_append]
  constructor
  · rintro ⟨u, hu, hr⟩
    obtain ⟨v, hv, hr⟩ := run_cons_ok.mp hr
    rw [run_nil, Except.ok.injEq] at hr; subst hr
    exact ⟨u, hu, hv⟩
  · rintro ⟨u, hu, hr⟩
    exact ⟨u, hu, run_cons_ok.mpr ⟨t, hr, rfl⟩⟩

/-- The state a run ends in, the first one if it ends in a fault. -/
def final (step : σ → ε → Except φ σ) (s : σ) (es : List ε) : σ :=
  match run step s es with
  | .ok t => t
  | .error _ => s

theorem run_final {s : σ} {es : List ε} (h : (run step s es).isOk = true) :
    run step s es = .ok (final step s es) := by
  unfold final
  cases hr : run step s es with
  | ok t => rfl
  | error f => rw [hr] at h; cases h

theorem run_invariant {I : σ → Prop} (hstep : ∀ s e s', I s → step s e = .ok s' → I s') {s t : σ} {es : List ε}
    (hs : I s) (hr : run step s es = .ok t) : I t := by
  induction es generalizing s with
  | nil => rw [run_nil, Except.ok.injEq] at hr; exact hr ▸ hs
  | cons e es ih =>
    obtain ⟨u, hu, hr⟩ := run_cons_ok.mp hr
    exact ih (hstep _ _ _ hs hu) hr

/-- What is known of a state and the events that led to it. -/
theorem run_history {H : List ε → σ → Prop} {s t : σ} {es : List ε} (hs : H [] s)
    (hstep : ∀ es u e v, run step s es = .ok u → H es u → step u e = .ok v → H (es ++ [e]) v)
    (hr : run step s es = .ok t) : H es t := by
  induction es using List.reverseRecOn generalizing t with
  | nil => rw [run_nil, Except.ok.injEq] at hr; exact hr ▸ hs
  | append_singleton es e ih =>
    obtain ⟨u, hu, he⟩ := run_snoc.mp hr
    exact hstep es u e t hu (ih hu) he

/-- A run whose steps keep an invariant or end in the fault `f`, which an event
has to permit. -/
theorem run_ok_or {I : σ → Prop} {C : σ → ε → Prop} {B : ε → Prop} {f : φ} {s : σ} {es : List ε}
    (hstep : ∀ s e, e ∈ es → I s → C s e → (B e ∧ step s e = .error f) ∨ ∃ t, step s e = .ok t ∧ I t) (hs : I s)
    (hc : Along step C s es) :
    ((∃ e ∈ es, B e) ∧ run step s es = .error f) ∨ ∃ t, run step s es = .ok t ∧ I t := by
  induction es generalizing s with
  | nil => exact Or.inr ⟨s, rfl, hs⟩
  | cons e es ih =>
    rcases hstep s e List.mem_cons_self hs hc.1 with ⟨hb, hf⟩ | ⟨t, ht, hi⟩
    · exact Or.inl ⟨⟨e, List.mem_cons_self, hb⟩, by simp only [run, hf]⟩
    · rw [run_cons_of_ok es ht]
      rcases ih (fun s e he => hstep s e (List.mem_cons_of_mem _ he)) hi (hc.2 t ht) with ⟨⟨e', he', hb⟩, hf⟩ | h
      · exact Or.inl ⟨⟨e', List.mem_cons_of_mem _ he', hb⟩, hf⟩
      · exact Or.inr h

/-- Two systems of which one is the other with something added to its states. -/
theorem run_map {σ' : Type*} {step' : σ' → ε → Except φ σ'} (π : σ' → σ)
    (hstep : ∀ s e, (step' s e).map π = step (π s) e) (s : σ') (es : List ε) :
    (run step' s es).map π = run step (π s) es := by
  induction es generalizing s with
  | nil => rfl
  | cons e es ih =>
    have he := hstep s e
    cases h : step' s e with
    | ok t =>
      rw [h] at he
      rw [run_cons_of_ok es h, run_cons_of_ok es he.symm]
      exact ih t
    | error f =>
      rw [h] at he
      simp only [run, h, ← he]
      rfl

/-! ## Properties of the steps of a run -/

theorem along_append {P : σ → ε → Prop} {s : σ} {es es' : List ε} (h : Along step P s (es ++ es')) :
    Along step P s es ∧ ∀ t, run step s es = .ok t → Along step P t es' := by
  induction es generalizing s with
  | nil =>
    refine ⟨trivial, fun t ht => ?_⟩
    rw [run_nil, Except.ok.injEq] at ht; exact ht ▸ h
  | cons e es ih =>
    refine ⟨⟨h.1, fun u hu => (ih (h.2 u hu)).1⟩, fun t ht => ?_⟩
    obtain ⟨u, hu, ht⟩ := run_cons_ok.mp ht
    exact (ih (h.2 u hu)).2 t ht

theorem along_last {P : σ → ε → Prop} {s t : σ} {es : List ε} {e : ε} (h : Along step P s (es ++ [e]))
    (hr : run step s es = .ok t) : P t e :=
  ((along_append h).2 t hr).1

/-- Two properties of a step agree along a run when they agree in every state
of `J`, and `J` is kept by the steps that satisfy the second. -/
theorem along_iff {J : σ → Prop} {P C : σ → ε → Prop} (hpc : ∀ s e, J s → (P s e ↔ C s e))
    (hstep : ∀ s e s', J s → C s e → step s e = .ok s' → J s') {s : σ} (es : List ε) (hs : J s) :
    Along step P s es ↔ Along step C s es := by
  induction es generalizing s with
  | nil => exact Iff.rfl
  | cons e es ih =>
    constructor
    · rintro ⟨hp, hr⟩
      have hc := (hpc s e hs).mp hp
      exact ⟨hc, fun s' h => (ih (hstep s e s' hs hc h)).mp (hr s' h)⟩
    · rintro ⟨hc, hr⟩
      exact ⟨(hpc s e hs).mpr hc, fun s' h => (ih (hstep s e s' hs hc h)).mpr (hr s' h)⟩

theorem always_run {Q : σ → Prop} {s t : σ} {es : List ε} (h : Always step Q s es) (hr : run step s es = .ok t) :
    Q t := by
  induction es generalizing s with
  | nil => rw [run_nil, Except.ok.injEq] at hr; exact hr ▸ h
  | cons e es ih =>
    obtain ⟨u, hu, hr⟩ := run_cons_ok.mp hr
    exact ih (h.2 u hu) hr

theorem always_congr {I Q Q' : σ → Prop} (hstep : ∀ s e s', I s → step s e = .ok s' → I s')
    (hq : ∀ s, I s → (Q s ↔ Q' s)) {s : σ} (es : List ε) (hs : I s) : Always step Q s es ↔ Always step Q' s es := by
  induction es generalizing s with
  | nil => exact hq s hs
  | cons e es ih =>
    exact and_congr (hq s hs) (forall_congr' fun s' => forall_congr' fun h => ih (hstep s e s' hs h))

/-- A run whose steps all satisfy what excludes the fault `f` does not end in it. -/
theorem along_ne_error {I : σ → Prop} {P : σ → ε → Prop} {f : φ} (hstep : ∀ s e s', I s → step s e = .ok s' → I s')
    (hf : ∀ s e, I s → P s e → step s e ≠ .error f) {s : σ} {es : List ε} (hs : I s) (h : Along step P s es) :
    run step s es ≠ .error f := by
  induction es generalizing s with
  | nil => simp
  | cons e es ih =>
    simp only [run]
    cases hu : step s e with
    | ok u => exact ih (hstep _ _ _ hs hu) (h.2 u hu)
    | error g => exact fun hg => hf s e hs h.1 (hu.trans hg)

/-- A run whose states all satisfy what excludes the fault `f` does not end in it. -/
theorem always_ne_error {I Q : σ → Prop} {f : φ} (hstep : ∀ s e s', I s → step s e = .ok s' → I s')
    (hf : ∀ s e, I s → Q s → step s e ≠ .error f) {s : σ} {es : List ε} (hs : I s) (h : Always step Q s es) :
    run step s es ≠ .error f := by
  induction es generalizing s with
  | nil => simp
  | cons e es ih =>
    simp only [run]
    cases hu : step s e with
    | ok u => exact ih (hstep _ _ _ hs hu) (h.2 u hu)
    | error g => exact fun hg => hf s e hs h.1 (hu.trans hg)

theorem always_iff_along {Q : σ → Prop} {s : σ} {es : List ε} :
    Always step Q s es ↔ Q s ∧ Along step (fun s e => ∀ s', step s e = .ok s' → Q s') s es := by
  induction es generalizing s with
  | nil => simp [Always, Along]
  | cons e es ih =>
    constructor
    · rintro ⟨hq, hr⟩
      exact ⟨hq, fun s' h => (ih.mp (hr s' h)).1, fun s' h => (ih.mp (hr s' h)).2⟩
    · rintro ⟨hq, hp, hr⟩
      exact ⟨hq, fun s' h => ih.mpr ⟨hp s' h, hr s' h⟩⟩

theorem always_and {Q R : σ → Prop} {s : σ} {es : List ε} :
    Always step (fun s => Q s ∧ R s) s es ↔ Always step Q s es ∧ Always step R s es := by
  induction es generalizing s with
  | nil => exact Iff.rfl
  | cons e es ih =>
    constructor
    · rintro ⟨⟨hq, hr⟩, h⟩
      exact ⟨⟨hq, fun s' hs => (ih.mp (h s' hs)).1⟩, hr, fun s' hs => (ih.mp (h s' hs)).2⟩
    · rintro ⟨⟨hq, h⟩, hr, h'⟩
      exact ⟨⟨hq, hr⟩, fun s' hs => ih.mpr ⟨h s' hs, h' s' hs⟩⟩

theorem along_and {P C : σ → ε → Prop} {s : σ} {es : List ε} :
    Along step (fun s e => P s e ∧ C s e) s es ↔ Along step P s es ∧ Along step C s es := by
  induction es generalizing s with
  | nil => exact (and_self_iff).symm
  | cons e es ih =>
    constructor
    · rintro ⟨⟨hp, hc⟩, h⟩
      exact ⟨⟨hp, fun s' hs => (ih.mp (h s' hs)).1⟩, hc, fun s' hs => (ih.mp (h s' hs)).2⟩
    · rintro ⟨⟨hp, h⟩, hc, h'⟩
      exact ⟨⟨hp, hc⟩, fun s' hs => ih.mpr ⟨h s' hs, h' s' hs⟩⟩

/-- While `Q` holds, the steps that keep it are those that satisfy `C`: then `Q`
holds in every state of a run exactly when all its steps satisfy `C`. -/
theorem always_iff {J Q : σ → Prop} {C : σ → ε → Prop} (hstep : ∀ s e s', J s → step s e = .ok s' → J s')
    (hq : ∀ s e, J s → Q s → ((∀ s', step s e = .ok s' → Q s') ↔ C s e)) {s : σ} (es : List ε) (hj : J s)
    (hs : Q s) :
    Always step Q s es ↔ Along step C s es := by
  have hiff : Along step (fun s e => ∀ s', step s e = .ok s' → Q s') s es ↔ Along step C s es :=
    along_iff (J := fun s => J s ∧ Q s) (fun s e h => hq s e h.1 h.2)
      (fun s e s' h hc hs' => ⟨hstep s e s' h.1 hs', (hq s e h.1 h.2).mpr hc s' hs'⟩) es ⟨hj, hs⟩
  rw [always_iff_along, hiff]
  exact and_iff_right hs

end

/-! ## What a run adds up to -/

section
variable {σ ε φ : Type*} {step : σ → ε → Except φ σ} (m : σ → ε → Nat)

/-- The sum of `m` over the steps of a run. -/
def tally (step : σ → ε → Except φ σ) : σ → List ε → Nat
  | _, [] => 0
  | s, e :: es =>
    m s e +
      match step s e with
      | .ok s' => tally step s' es
      | .error _ => 0

variable {m}

theorem tally_cons_of_ok {s s' : σ} {e : ε} (es : List ε) (h : step s e = .ok s') :
    tally m step s (e :: es) = m s e + tally m step s' es := by
  simp only [tally, h]

theorem tally_append {s t : σ} {es : List ε} (es' : List ε) (h : run step s es = .ok t) :
    tally m step s (es ++ es') = tally m step s es + tally m step t es' := by
  induction es generalizing s with
  | nil =>
    rw [run_nil, Except.ok.injEq] at h
    rw [List.nil_append, tally, h, Nat.zero_add]
  | cons e es ih =>
    obtain ⟨u, hu, hr⟩ := run_cons_ok.mp h
    rw [List.cons_append, tally_cons_of_ok _ hu, tally_cons_of_ok _ hu, ih hr, Nat.add_assoc]

theorem run_tally {I : Nat → σ → Prop} (hstep : ∀ n s e s', I n s → step s e = .ok s' → I (n + m s e) s') {n : Nat}
    {s t : σ} {es : List ε} (hs : I n s) (hr : run step s es = .ok t) : I (n + tally m step s es) t := by
  induction es generalizing n s with
  | nil => rw [run_nil, Except.ok.injEq] at hr; exact hr ▸ hs
  | cons e es ih =>
    obtain ⟨u, hu, hr⟩ := run_cons_ok.mp hr
    rw [tally_cons_of_ok _ hu, ← Nat.add_assoc]
    exact ih (hstep n s e u hs hu) hr

/-- A property of the states and the sums so far holds throughout a run exactly
when each step meets `C`, if it is `C` that carries it over a step. -/
theorem run_tally_iff {J : σ → Prop} {M : Nat → σ → Prop} {C : σ → ε → Prop} {N : Nat}
    (hfault : ∀ s e f, step s e = .error f → C s e)
    (hiff : ∀ n s e s', J s → M n s → n + m s e < N → step s e = .ok s' → (M (n + m s e) s' ↔ C s e))
    (hstep : ∀ s e s', J s → C s e → step s e = .ok s' → J s') {n : Nat} {s : σ} {es : List ε} (hj : J s)
    (hm : M n s) (hN : n + tally m step s es < N) :
    (∀ pre t, pre <+: es → run step s pre = .ok t → M (n + tally m step s pre) t) ↔ Along step C s es := by
  induction es generalizing n s with
  | nil =>
    refine ⟨fun _ => trivial, fun _ pre t hpre hr => ?_⟩
    rw [List.prefix_nil.mp hpre, run_nil, Except.ok.injEq] at hr
    rw [List.prefix_nil.mp hpre, ← hr]
    exact hm
  | cons e es ih =>
    cases he : step s e with
    | error f =>
      refine ⟨fun _ => ⟨hfault s e f he, fun s' h => absurd (he.symm.trans h) nofun⟩, fun _ pre t hpre hr => ?_⟩
      rcases List.prefix_cons_iff.mp hpre with rfl | ⟨pre, rfl, -⟩
      · rw [run_nil, Except.ok.injEq] at hr
        exact hr ▸ hm
      · obtain ⟨u, hu, -⟩ := run_cons_ok.mp hr
        exact absurd (he.symm.trans hu) nofun
    | ok u =>
      rw [tally_cons_of_ok es he, ← Nat.add_assoc] at hN
      have hcarry := hiff n s e u hj hm (by omega) he
      constructor
      · intro hall
        have hu : M (n + m s e) u := by
          have hone := hall [e] u (List.cons_prefix_cons.mpr ⟨rfl, List.nil_prefix⟩) (run_cons_of_ok [] he)
          rwa [tally_cons_of_ok [] he, tally, Nat.add_zero] at hone
        have hc := hcarry.mp hu
        refine ⟨hc, fun s' hs' => ?_⟩
        obtain rfl : u = s' := Except.ok.inj (he.symm.trans hs')
        refine (ih (hstep s e u hj hc he) hu hN).mp fun pre t hpre hr => ?_
        have hcons := hall (e :: pre) t (List.cons_prefix_cons.mpr ⟨rfl, hpre⟩) ((run_cons_of_ok pre he).trans hr)
        rwa [tally_cons_of_ok pre he, ← Nat.add_assoc] at hcons
      · rintro ⟨hc, hrest⟩ pre t hpre hr
        have hu := hcarry.mpr hc
        rcases List.prefix_cons_iff.mp hpre with rfl | ⟨pre, rfl, hrest'⟩
        · rw [run_nil, Except.ok.injEq] at hr
          exact hr ▸ hm
        · rw [run_cons_of_ok pre he] at hr
          rw [tally_cons_of_ok pre he, ← Nat.add_assoc]
          exact (ih (hstep s e u hj hc he) hu hN).mpr (hrest u he) pre t hrest' hr

/-- A round that leads from `I` to `I`, any number of times. -/
theorem run_rounds {I : σ → Prop} {es : List ε} {k : Nat}
    (hround : ∀ s, I s → ∃ t, run step s es = .ok t ∧ I t ∧ tally m step s es = k) (n : Nat) {s : σ} (hs : I s) :
    ∃ t, run step s (List.replicate n es).flatten = .ok t ∧ I t ∧
      tally m step s (List.replicate n es).flatten = n * k := by
  induction n generalizing s with
  | zero => exact ⟨s, rfl, hs, (Nat.zero_mul k).symm⟩
  | succ n ih =>
    obtain ⟨u, hu, hi, hk⟩ := hround s hs
    obtain ⟨t, ht, hi', hn⟩ := ih hi
    rw [List.replicate_succ, List.flatten_cons]
    refine ⟨t, run_append.mpr ⟨u, hu, ht⟩, hi', ?_⟩
    rw [tally_append _ hu, hk, hn, Nat.succ_mul, Nat.add_comm]

end

/-! ## Machines with output -/

section
variable {σ α β : Type*} (f : σ → α → σ × List β)

/-- A function that takes the state over a list of inputs, with all that it puts out. -/
def transduce (s : σ) : List α → σ × List β
  | [] => (s, [])
  | a :: l => ((transduce (f s a).1 l).1, (f s a).2 ++ (transduce (f s a).1 l).2)

variable {f}

theorem transduce_append (s : σ) (l l' : List α) :
    transduce f s (l ++ l') =
      ((transduce f (transduce f s l).1 l').1, (transduce f s l).2 ++ (transduce f (transduce f s l).1 l').2) := by
  induction l generalizing s with
  | nil => rfl
  | cons a l ih => simp only [List.cons_append, transduce, ih, List.append_assoc]

theorem transduce_snoc (s : σ) (l : List α) (a : α) :
    transduce f s (l ++ [a]) =
      ((f (transduce f s l).1 a).1, (transduce f s l).2 ++ (f (transduce f s l).1 a).2) := by
  rw [transduce_append]
  simp [transduce]

end

end Lib
