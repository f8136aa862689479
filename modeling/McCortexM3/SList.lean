import Mathlib.Data.List.Basic

/-!
# Singly linked lists

Nodes with a next pointer form a list when the pointers lead from the start through its nodes
to the null pointer.

## Main definitions

* `Chain next start l` — following `next` from `start` visits `l`.

## Main results

* `Chain.push`, `Chain.append`, `Chain.removeNext`, `Chain.congr` — a node is linked before the
  list or behind it, a node inside is unlinked, or pointers elsewhere are written.
-/

set_option linter.all false

variable {α : Type*} {next next' : α → Option α} {start : Option α} {l : List α} {n : α}

/-- Following `next` from `start` visits the nodes of `l` and ends. -/
def Chain (next : α → Option α) : Option α → List α → Prop
  | start, [] => start = none
  | start, n :: l => start = some n ∧ Chain next (next n) l

namespace Chain

open Function List

@[simp] theorem nil_iff : Chain next start [] ↔ start = none := Iff.rfl

@[simp] theorem cons_iff : Chain next start (n :: l) ↔ start = some n ∧ Chain next (next n) l :=
  Iff.rfl

theorem head?_eq (h : Chain next start l) : l.head? = start := by
  cases l with
  | nil => exact h.symm
  | cons n l => exact h.1.symm

theorem exists_cons (h : Chain next (some n) l) :
    ∃ rest, l = n :: rest ∧ Chain next (next n) rest := by
  cases l with
  | nil => cases h
  | cons m rest =>
    obtain ⟨he, hrest⟩ := h
    cases he
    exact ⟨rest, rfl, hrest⟩

theorem congr (h : Chain next start l) (hn : ∀ m ∈ l, next' m = next m) : Chain next' start l := by
  induction l generalizing start with
  | nil => exact h
  | cons m l ih =>
    refine ⟨h.1, ?_⟩
    rw [hn m mem_cons_self]
    exact ih h.2 fun u hu => hn u (mem_cons_of_mem m hu)

variable [DecidableEq α]

theorem update (h : Chain next start l) (hn : n ∉ l) (x : Option α) :
    Chain (Function.update next n x) start l := by
  refine h.congr fun m hm => update_of_ne ?_ ..
  rintro rfl
  exact hn hm

theorem push (h : Chain next start l) (hn : n ∉ l) :
    Chain (Function.update next n start) (some n) (n :: l) := by
  refine ⟨rfl, ?_⟩
  rw [update_self]
  exact h.update hn start

theorem append {last : α} (h : Chain next start l) (hnodup : l.Nodup)
    (hlast : l.getLast? = some last) (hn : n ∉ l) (hnull : next n = none) :
    Chain (Function.update next last (some n)) start (l ++ [n]) := by
  induction l generalizing start with
  | nil => cases hlast
  | cons m l ih =>
    refine ⟨h.1, ?_⟩
    cases l with
    | nil =>
      obtain rfl : m = last := by simpa using hlast
      have hne : n ≠ m := by simpa using hn
      simp [update_of_ne hne, hnull]
    | cons m' l =>
      have hlast' : (m' :: l).getLast? = some last := by simpa using hlast
      have hmem : last ∈ m' :: l := mem_of_getLast? hlast'
      have hne : m ≠ last := by
        rintro rfl
        exact (nodup_cons.1 hnodup).1 hmem
      rw [update_of_ne hne]
      exact ih h.2 hnodup.of_cons hlast' fun hm => hn (mem_cons_of_mem m hm)

/-- The node behind the node `p` is unlinked. -/
theorem removeNext {p : α} {l₁ l₂ : List α} (h : Chain next start (l₁ ++ p :: n :: l₂))
    (hnodup : (l₁ ++ p :: n :: l₂).Nodup) :
    Chain (Function.update next p (next n)) start (l₁ ++ p :: l₂) := by
  induction l₁ generalizing start with
  | nil =>
    obtain ⟨hstart, -, hrest⟩ := h
    refine ⟨hstart, ?_⟩
    rw [update_self]
    apply hrest.update
    obtain ⟨hp, -⟩ := nodup_cons.1 hnodup
    exact fun hmem => hp (mem_cons_of_mem _ hmem)
  | cons m l₁ ih =>
    obtain ⟨hstart, hrest⟩ := h
    obtain ⟨hm, hnodup⟩ := nodup_cons.1 hnodup
    refine ⟨hstart, ?_⟩
    have hne : m ≠ p := by
      rintro rfl
      exact hm (mem_append_right _ mem_cons_self)
    rw [update_of_ne hne]
    exact ih hrest hnodup

end Chain
