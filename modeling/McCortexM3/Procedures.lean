import Mathlib.Data.Nat.Notation
import Mathlib.Data.Option.Basic

/-!
# Recursive procedures

The body of a procedure is a computation that may call procedures.  It is run with fuel, every call
taking one unit of it; the result of a procedure is what it returns with enough fuel, if any.

## Main definitions

* `Calls Q R` — computations that call procedures `q : Q`, which return an `R`.
* `eval body n q` — the procedure `q` with fuel `n`.
* `result body q` — the procedure `q` with enough fuel.
* `Meets P post c` — the computation ends in `post` when the calls meet `P`.

## Main results

* `result_eq` — the result of a procedure is that of its body.
* `result_induct` — what the bodies meet, if the calls do so, is met by the results.
-/

set_option linter.all false

variable {Q R : Type*}

/-- Computations that call procedures. -/
inductive Calls (Q R : Type*)
  | ret (r : R)
  | call (q : Q) (k : R → Calls Q R)

namespace Calls

open Option

/-- The computation, with `f` for the procedures. -/
def run (f : Q → Option R) : Calls Q R → Option R
  | ret r => some r
  | call q k => (f q).bind fun r => (k r).run f

/-- A procedure with fuel. -/
def eval (body : Q → Calls Q R) : ℕ → Q → Option R
  | 0, _ => none
  | n + 1, q => (body q).run (eval body n)

variable {body : Q → Calls Q R} {f g : Q → Option R} {q : Q} {r : R} {m n : ℕ}

theorem run_mono (h : ∀ q r, f q = some r → g q = some r) {c : Calls Q R}
    (hr : c.run f = some r) : c.run g = some r := by
  induction c with
  | ret a => exact hr
  | call q k ih =>
    rw [run, bind_eq_some_iff] at hr ⊢
    obtain ⟨a, ha, hk⟩ := hr
    exact ⟨a, h q a ha, ih a hk⟩

theorem eval_mono (h : eval body m q = some r) (hmn : m ≤ n) : eval body n q = some r := by
  induction m generalizing n q r with
  | zero => cases h
  | succ m ih =>
    obtain ⟨n, rfl⟩ := Nat.exists_eq_add_of_le' (Nat.one_le_of_lt hmn)
    exact run_mono (fun q r hq => ih hq (by omega)) h

open Classical in
/-- A procedure with enough fuel. -/
noncomputable def result (body : Q → Calls Q R) (q : Q) : Option R :=
  if h : ∃ r n, eval body n q = some r then some h.choose else none

theorem result_eq_some_iff : result body q = some r ↔ ∃ n, eval body n q = some r := by
  constructor
  · intro h
    rw [result] at h
    split at h
    · next hex =>
      cases h
      exact hex.choose_spec
    · cases h
  · rintro ⟨n, hn⟩
    have hex : ∃ r n, eval body n q = some r := ⟨r, n, hn⟩
    obtain ⟨m, hm⟩ := hex.choose_spec
    -- both fuels return the same
    have hr := eval_mono hn (Nat.le_max_left n m)
    rw [eval_mono hm (Nat.le_max_right n m)] at hr
    rw [result, dif_pos hex, hr]

/-- A computation that returns with the results of the procedures does so with some fuel. -/
theorem exists_run_eval {c : Calls Q R} (h : c.run (result body) = some r) :
    ∃ n, c.run (eval body n) = some r := by
  induction c with
  | ret a => exact ⟨0, h⟩
  | call q k ih =>
    rw [run, bind_eq_some_iff] at h
    obtain ⟨a, ha, hk⟩ := h
    obtain ⟨m, hm⟩ := result_eq_some_iff.mp ha
    obtain ⟨n, hn⟩ := ih a hk
    refine ⟨max m n, ?_⟩
    rw [run, eval_mono hm (Nat.le_max_left m n), bind_some]
    exact run_mono (fun q r hq => eval_mono hq (Nat.le_max_right m n)) hn

/-- **The result of a procedure is that of its body.** -/
theorem result_eq (body : Q → Calls Q R) (q : Q) : result body q = (body q).run (result body) := by
  apply Option.ext
  intro r
  constructor
  · intro h
    obtain ⟨n, hn⟩ := result_eq_some_iff.mp h
    cases n with
    | zero => cases hn
    | succ n => exact run_mono (fun q r hq => result_eq_some_iff.mpr ⟨n, hq⟩) hn
  · intro h
    obtain ⟨n, hn⟩ := exists_run_eval h
    exact result_eq_some_iff.mpr ⟨n + 1, hn⟩

/-- The computation ends in `post` when the calls meet `P`. -/
def Meets (P : Q → R → Prop) (post : R → Prop) : Calls Q R → Prop
  | ret r => post r
  | call q k => ∀ r, P q r → (k r).Meets P post

variable {P : Q → R → Prop} {post : R → Prop}

theorem Meets.run {c : Calls Q R} (h : c.Meets P post) (hf : ∀ q r, f q = some r → P q r)
    (hr : c.run f = some r) : post r := by
  induction c with
  | ret a =>
    cases hr
    exact h
  | call q k ih =>
    rw [Calls.run, bind_eq_some_iff] at hr
    obtain ⟨a, ha, hk⟩ := hr
    exact ih a (h a (hf q a ha)) hk

/-- **The rule of recursion**: what every body meets when the calls do so is met by the
procedures. -/
theorem result_induct {pre : Q → Prop}
    (h : ∀ q, pre q → (body q).Meets (fun q r => pre q → P q r) (P q)) (hq : pre q)
    (hr : result body q = some r) : P q r := by
  obtain ⟨n, hn⟩ := result_eq_some_iff.mp hr
  induction n generalizing q r with
  | zero => cases hn
  | succ n ih =>
    exact (h q hq).run (fun q r hr hq => ih hq (result_eq_some_iff.mpr ⟨n, hr⟩) hr) hn

theorem result_induct_of {K : Q → R → Prop} (hK : ∀ q r, result body q = some r → K q r)
    (h : ∀ q, (body q).Meets (fun q r => K q r ∧ P q r) (P q)) (hr : result body q = some r) :
    P q r := by
  obtain ⟨n, hn⟩ := result_eq_some_iff.mp hr
  induction n generalizing q r with
  | zero => cases hn
  | succ n ih =>
    refine (h q).run (fun q r hr => ?_) hn
    have hresult := result_eq_some_iff.mpr ⟨n, hr⟩
    exact ⟨hK q r hresult, ih hresult hr⟩

end Calls
