import Mathlib.Data.Option.Basic
import Mathlib.Algebra.Group.Int.Defs
import Mathlib.Algebra.GroupWithZero.Nat

/-!
# Runs of a partial step function

A step function takes a state and an input, and either refuses the input or returns
the next state together with the events the step shows to an observer.  A run collects
the events of its steps in order.  A run may be restricted to steps that meet a
condition on the state before the step and on the input.

## Main definitions

* `Run step C s₀ tr s` — a run from `s₀` to `s` whose steps all meet `C` and that shows
  the events `tr`.
* `exec` — the run on a given list of inputs, computed.

## Main results

* `Run.invariant` — an invariant of the steps holds after every run.
* `Run.refines` — the runs of a system that refines another one are runs of the other.
* `Run.of_exec` — what `exec` computes is a run.
-/

set_option linter.all false

-- systems of two and of three parts, such as threads
instance neZeroTwo : NeZero 2 := ⟨by decide⟩
instance neZeroThree : NeZero 3 := ⟨by decide⟩

variable {σ α β : Type*}

/-- The runs from `s₀` whose steps all meet `C`, with the events they show. -/
inductive Run (step : σ → α → Option (σ × List β)) (C : σ → α → Prop) (s₀ : σ) :
    List β → σ → Prop
  | nil : Run step C s₀ [] s₀
  | snoc {tr : List β} {s : σ} {a : α} {s' : σ} {out : List β} :
      Run step C s₀ tr s → C s a → step s a = some (s', out) →
      Run step C s₀ (tr ++ out) s'

namespace Run

variable {step : σ → α → Option (σ × List β)} {C : σ → α → Prop} {s₀ s : σ} {tr : List β}

/-- **The invariant rule**: what holds of the empty run and is kept by every step that
meets the condition holds of every run. -/
theorem invariant (h : Run step C s₀ tr s) (I : List β → σ → Prop) (h0 : I [] s₀)
    (hstep : ∀ {tr s a s' out}, I tr s → C s a → step s a = some (s', out) → I (tr ++ out) s') :
    I tr s := by
  induction h with
  | nil => exact h0
  | snoc _ hc hs ih => exact hstep ih hc hs

/-- **The refinement rule**: when every step from a state that meets the invariant is an
operation on its image, or leaves the image alone, every run is a run of the images. -/
theorem refines {σ' α' : Type*} {step' : σ' → α' → Option (σ' × List β)} {C' : σ' → α' → Prop}
    (h : Run step C s₀ tr s) (f : σ → σ') (op : σ → α → Option α') (I : σ → Prop) (h0 : I s₀)
    (hC : ∀ {s a b}, C s a → op s a = some b → C' (f s) b)
    (hstep : ∀ {s a s' out}, I s → step s a = some (s', out) →
      I s' ∧ ((op s a = none ∧ f s' = f s ∧ out = []) ∨
        ∃ b, op s a = some b ∧ step' (f s) b = some (f s', out))) :
    I s ∧ Run step' C' (f s₀) tr (f s) := by
  induction h with
  | nil => exact ⟨h0, nil⟩
  | snoc _ hc hs ih =>
    obtain ⟨hI, hrun⟩ := ih
    obtain ⟨hI', ⟨-, hf, rfl⟩ | ⟨b, hb, hs'⟩⟩ := hstep hI hs
    · rw [hf, List.append_nil]
      exact ⟨hI', hrun⟩
    · exact ⟨hI', hrun.snoc (hC hc hb) hs'⟩

theorem mono {C' : σ → α → Prop} (h : Run step C s₀ tr s) (hC : ∀ s a, C s a → C' s a) :
    Run step C' s₀ tr s := by
  induction h with
  | nil => exact nil
  | snoc _ hc hs ih => exact snoc ih (hC _ _ hc) hs

end Run

/-- The run on the inputs `as`, or `none` when a step refuses or misses the condition. -/
def exec (step : σ → α → Option (σ × List β)) (C : σ → α → Prop) [∀ s a, Decidable (C s a)] :
    σ → List α → Option (σ × List β)
  | s, [] => some (s, [])
  | s, a :: as =>
    if C s a then
      match step s a with
      | none => none
      | some (s', out) => (exec step C s' as).map fun r => (r.1, out ++ r.2)
    else none

namespace Run

variable {step : σ → α → Option (σ × List β)} {C : σ → α → Prop} [∀ s a, Decidable (C s a)]

theorem append_exec {s₀ s s' : σ} {tr out : List β} {as : List α} (h : Run step C s₀ tr s)
    (he : exec step C s as = some (s', out)) : Run step C s₀ (tr ++ out) s' := by
  induction as generalizing s tr out with
  | nil =>
    obtain ⟨rfl, rfl⟩ : s = s' ∧ [] = out := by simpa [exec] using he
    simpa using h
  | cons a as ih =>
    by_cases hc : C s a
    · cases hs : step s a with
      | none => simp [exec, hc, hs] at he
      | some r =>
        obtain ⟨s₁, out₁⟩ := r
        simp only [exec, hc, hs, if_true, Option.map_eq_some_iff] at he
        obtain ⟨⟨s₂, out₂⟩, he, hout⟩ := he
        obtain ⟨rfl, rfl⟩ : s₂ = s' ∧ out₁ ++ out₂ = out := by simpa using hout
        rw [← List.append_assoc]
        exact ih (h.snoc hc hs) he
    · simp [exec, hc] at he

theorem of_exec {s₀ s : σ} {tr : List β} {as : List α}
    (he : exec step C s₀ as = some (s, tr)) : Run step C s₀ tr s := by
  simpa using nil.append_exec he

theorem of_any {s₀ : σ} {as : List α} {p : σ × List β → Prop} {_ : DecidablePred p}
    (h : (exec step C s₀ as).any fun r => p r) : ∃ s tr, Run step C s₀ tr s ∧ p (s, tr) := by
  obtain ⟨⟨s, tr⟩, hexec, hp⟩ := (Option.any_eq_true _ _).1 h
  exact ⟨s, tr, of_exec hexec, of_decide_eq_true hp⟩

end Run
