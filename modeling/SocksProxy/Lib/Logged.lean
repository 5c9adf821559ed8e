import SocksProxy.Lib.Share

/-!
# Loops that take steps of a system

A loop takes some steps and ends in a state or in a fault; it notes the steps
as it takes them. `Follows` says that it ends where a run of the system over
what it has noted does. `follows_fold` is the rule for a loop whose body needs
an invariant.
-/

namespace Lib

/-- What has been noted, and how it has ended. -/
abbrev Logged (ε φ σ : Type*) := List ε × Except φ σ

namespace Logged

section
variable {ε φ σ τ α : Type*}

def done (s : σ) : Logged ε φ σ := ([], .ok s)

def bind (t : Logged ε φ σ) (f : σ → Logged ε φ τ) : Logged ε φ τ :=
  match t.2 with
  | .ok s => (t.1 ++ (f s).1, (f s).2)
  | .error e => (t.1, .error e)

def fold (f : σ → α → Logged ε φ σ) (s : σ) : List α → Logged ε φ σ
  | [] => done s
  | a :: l => (f s a).bind fun s => fold f s l

end

section
variable {σ ε φ α : Type*} (step : σ → ε → Except φ σ) (P : σ → ε → Prop)

/-- The steps that `t` has noted lead from `s` to where it ends, as long as
they satisfy `P`. -/
def Follows (s : σ) (t : Logged ε φ σ) : Prop := Along step P s t.1 → t.2 = run step s t.1

variable {step P} {s : σ} {t : Logged ε φ σ} {f : σ → Logged ε φ σ}

theorem bind_ok_inv {v : σ} (h : (t.bind f).2 = .ok v) :
    ∃ u, t.2 = .ok u ∧ (f u).2 = .ok v ∧ (t.bind f).1 = t.1 ++ (f u).1 := by
  obtain ⟨es, r⟩ := t
  cases r with
  | error g => cases h
  | ok u => exact ⟨u, rfl, h, rfl⟩

theorem mem_bind {e : ε} (h : e ∈ t.1) : e ∈ (t.bind f).1 := by
  obtain ⟨es, r⟩ := t
  cases r with
  | error g => exact h
  | ok u => exact List.mem_append_left _ h

theorem follows_done (s : σ) : Follows step P s (done s) := fun _ => rfl

theorem follows_once {e : ε} {r : Except φ σ} (h : r = step s e) : Follows step P s ([e], r) := by
  intro _
  cases he : step s e with
  | ok u => simp [h, he, run]
  | error g => simp [h, he, run]

/-- What comes after `t` may rely on the steps that `t` has taken. -/
theorem follows_bind (h : Follows step P s t)
    (hf : ∀ u, Along step P s t.1 → run step s t.1 = .ok u → Follows step P u (f u)) :
    Follows step P s (t.bind f) := by
  obtain ⟨es, r⟩ := t
  cases r with
  | error g => exact h
  | ok u =>
    intro hp
    obtain ⟨hfirst, hrest⟩ := along_append hp
    have hr : run step s es = .ok u := (h hfirst).symm
    have hu := hf u hfirst hr (hrest u hr)
    exact hu.trans (run_append_of_ok _ hr).symm

/-- A loop over a list, by what holds whenever its body is entered. -/
theorem follows_fold {I : σ → Prop} {body : σ → α → Logged ε φ σ} (hbody : ∀ s a, I s → Follows step P s (body s a))
    (hstep : ∀ s e s', I s → P s e → step s e = .ok s' → I s') (l : List α) (hs : I s) :
    Follows step P s (fold body s l) := by
  induction l generalizing s with
  | nil => exact follows_done s
  | cons a l ih =>
    refine follows_bind (hbody s a hs) fun u hp hr => ih ?_
    exact run_along hstep hs hp hr

/-- A loop that comes to its end has been at every element. -/
theorem mem_fold {I : σ → Prop} {body : σ → α → Logged ε φ σ} (hbody : ∀ s a, I s → Follows step P s (body s a))
    (hstep : ∀ s e s', I s → P s e → step s e = .ok s' → I s') {e : ε} {a : α} (he : ∀ u, I u → e ∈ (body u a).1)
    {l : List α} (ha : a ∈ l) (hs : I s) (hp : Along step P s (fold body s l).1) {v : σ}
    (hv : (fold body s l).2 = .ok v) : e ∈ (fold body s l).1 := by
  induction l generalizing s with
  | nil => exact absurd ha List.not_mem_nil
  | cons b l ih =>
    rcases List.mem_cons.mp ha with rfl | hmem
    · exact mem_bind (he s hs)
    · obtain ⟨u, hu, hlast, hlog⟩ := bind_ok_inv hv
      rw [fold, hlog] at hp ⊢
      obtain ⟨hfirst, hrest⟩ := along_append hp
      have hr : run step s (body s b).1 = .ok u := (hbody s b hs hfirst).symm.trans hu
      exact List.mem_append_right _ (ih hmem (run_along hstep hs hfirst hr) (hrest u hr) hlast)

end

end Logged

end Lib
