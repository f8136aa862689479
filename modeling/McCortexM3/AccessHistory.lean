import Mathlib.Logic.Function.Basic

/-!
# Histories of memory accesses

A memory serves reads and writes of sets of cells.  An access is the partial map from
the cells it touches to the values it carries, and a history is the list of the accesses
completed so far.  A history is consistent when every read carries, in each of its
cells, the value most recently written there.

## Main definitions

* `Access`, `contents` — accesses, and the cells after a history.
* `Consistent` — every read of the history agrees with the writes before it.
-/

set_option linter.all false

variable {A V : Type*}

/-- A completed access: the cells it touches, with the values it carries. -/
inductive Access (A V : Type*)
  | read (data : A → Option V)
  | write (data : A → Option V)

namespace Access

open List

/-- The value of the cell `x` after the access, when it was `v` before. -/
def apply : Access A V → A → V → V
  | read _, _, v => v
  | write data, x, v => (data x).getD v

/-- The cells after a history: each holds what was written to it last, or its initial
value. -/
def contents (init : A → V) (tr : List (Access A V)) (x : A) : V :=
  tr.foldl (fun v a => a.apply x v) (init x)

@[simp] theorem contents_append_read (init : A → V) (tr : List (Access A V))
    (data : A → Option V) (x : A) :
    contents init (tr ++ [read data]) x = contents init tr x := by
  simp [contents, apply]

@[simp] theorem contents_append_write (init : A → V) (tr : List (Access A V))
    (data : A → Option V) (x : A) :
    contents init (tr ++ [write data]) x = (data x).getD (contents init tr x) := by
  simp [contents, apply]

/-- Every read carries the values most recently written. -/
def Consistent (init : A → V) (tr : List (Access A V)) : Prop :=
  ∀ pre data post, tr = pre ++ read data :: post → ∀ x v, data x = some v → v = contents init pre x

theorem consistent_nil (init : A → V) : Consistent init [] := by
  intro pre data post h
  simp at h

/-- A consistent history stays so when the access appended to it, if it is a read, carries
the current contents. -/
theorem Consistent.snoc {init : A → V} {tr : List (Access A V)} {a : Access A V}
    (h : Consistent init tr)
    (ha : ∀ data, a = read data → ∀ x v, data x = some v → v = contents init tr x) :
    Consistent init (tr ++ [a]) := by
  intro pre data post heq x v hx
  rcases eq_nil_or_concat post with rfl | ⟨post, b, rfl⟩
  · obtain ⟨rfl, hab⟩ := append_inj' heq rfl
    exact ha data (by simpa using hab) x v hx
  · have hcut : tr ++ [a] = (pre ++ read data :: post) ++ [b] := by
      rw [heq]
      simp
    exact h pre data post (append_inj' hcut rfl).1 x v hx

end Access
