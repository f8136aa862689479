import Mathlib.Data.List.Basic
import Mathlib.Order.Nat

/-!
# Spans laid out one after another, going round once

Spans of addresses that are given out in order from a piece of memory, each behind the one
before, or at the beginning again when the end is reached.  The oldest and the newest span
decide where there is room.

## Main definitions

* `Span`, `Span.Apart` — a range of addresses, and two without a common address.
* `Ascending` — each span ends before the next begins.
* `GoesRound` — the later spans may be in front of the earlier ones.

## Main results

* `GoesRound.sublist` — spans may be given back in any order.
* `GoesRound.behind`, `GoesRound.wrap`, `GoesRound.between` — where the next span may be.
* `GoesRound.apart` — all spans are apart.
-/

set_option linter.all false

/-- A range of addresses. -/
structure Span where
  lo : ℕ
  hi : ℕ
  le : lo ≤ hi

namespace Span

variable {a b c : Span}

/-- The spans have no address in common. -/
def Apart (a b : Span) : Prop := ∀ x, ¬ ((a.lo ≤ x ∧ x < a.hi) ∧ b.lo ≤ x ∧ x < b.hi)

theorem Apart.symm (h : Apart a b) : Apart b a := fun x hx => h x hx.symm

theorem apart_of_le (h : a.hi ≤ b.lo) : Apart a b := fun x hx => by omega

end Span

/-- Each span ends before the next begins. -/
def Ascending (l : List Span) : Prop := l.Pairwise fun a b => a.hi ≤ b.lo

/-- The spans go round at most once: the later ones are in front of the earlier ones. -/
def GoesRound (l : List Span) : Prop :=
  ∃ l₁ l₂, l = l₁ ++ l₂ ∧ Ascending l₁ ∧ Ascending l₂ ∧
    ∀ a ∈ l₁, ∀ b ∈ l₂, b.hi ≤ a.lo ∧ b.lo < a.lo

variable {l l' : List Span} {a b s : Span}

namespace Ascending

theorem head_le (h : Ascending l) (ha : l.head? = some a) (hb : b ∈ l) : a.lo ≤ b.lo := by
  cases l with
  | nil => cases hb
  | cons c l =>
    obtain rfl : c = a := Option.some_inj.1 ha
    rcases List.mem_cons.1 hb with rfl | hb
    · exact le_rfl
    · exact c.le.trans ((List.pairwise_cons.1 h).1 b hb)

theorem le_getLast (h : Ascending l) (ha : l.getLast? = some a) (hb : b ∈ l) : b.hi ≤ a.hi := by
  obtain ⟨l', rfl⟩ := List.getLast?_eq_some_iff.1 ha
  rcases List.mem_append.1 hb with hb | hb
  · exact ((List.pairwise_append.1 h).2.2 b hb a (List.mem_singleton_self a)).trans a.le
  · exact (congrArg Span.hi (List.mem_singleton.1 hb)).le

theorem append (h : Ascending l) (hs : ∀ b ∈ l, b.hi ≤ s.lo) : Ascending (l ++ [s]) := by
  refine List.pairwise_append.2 ⟨h, List.pairwise_singleton .., ?_⟩
  intro b hb c hc
  rw [List.mem_singleton.1 hc]
  exact hs b hb

theorem goesRound (h : Ascending l) : GoesRound l :=
  ⟨l, [], (List.append_nil l).symm, h, .nil, nofun⟩

end Ascending

namespace GoesRound

theorem nil : GoesRound [] := Ascending.goesRound .nil

section

variable (h : GoesRound l)
include h

theorem sublist (hl : l'.Sublist l) : GoesRound l' := by
  obtain ⟨l₁, l₂, rfl, h₁, h₂, hround⟩ := h
  obtain ⟨k₁, k₂, rfl, hk₁, hk₂⟩ := List.sublist_append_iff.1 hl
  exact ⟨k₁, k₂, rfl, h₁.sublist hk₁, h₂.sublist hk₂,
    fun a ha b hb => hround a (hk₁.subset ha) b (hk₂.subset hb)⟩

/-- The first and the last span say whether the spans go round: either they ascend, and the last
one does not begin before the first one, or the last one is in front of the first one. -/
theorem cases (ha : l.head? = some a) (hb : l.getLast? = some b) :
    (Ascending l ∧ a.lo ≤ b.lo) ∨
      (b.lo < a.lo ∧ b.hi ≤ a.lo ∧ ∃ l₁ l₂, l = l₁ ++ l₂ ∧ Ascending l₁ ∧ Ascending l₂ ∧
        l₁.head? = some a ∧ l₂.getLast? = some b ∧ ∀ c ∈ l₁, ∀ d ∈ l₂, d.hi ≤ c.lo ∧ d.lo < c.lo) := by
  have hmem : b ∈ l := List.mem_of_getLast? hb
  obtain ⟨l₁, l₂, rfl, h₁, h₂, hround⟩ := h
  cases l₁ with
  | nil =>
    rw [List.nil_append] at ha hb hmem ⊢
    exact .inl ⟨h₂, h₂.head_le ha hmem⟩
  | cons c l₁ =>
    obtain rfl : c = a := Option.some_inj.1 ha
    rcases List.eq_nil_or_concat l₂ with rfl | ⟨l₂, d, rfl⟩
    · rw [List.append_nil] at hb hmem ⊢
      exact .inl ⟨h₁, h₁.head_le rfl hmem⟩
    · have hd : d = b := by
        rw [List.concat_eq_append, ← List.append_assoc, List.getLast?_concat] at hb
        exact Option.some_inj.1 hb
      subst hd
      have hlast := hround c (List.mem_cons_self ..) d (by simp)
      exact .inr ⟨hlast.2, hlast.1, c :: l₁, l₂.concat d, rfl, h₁, h₂, rfl, by simp, hround⟩

theorem behind (ha : l.head? = some a) (hb : l.getLast? = some b)
    (hab : a.lo ≤ b.lo) (hs : b.hi ≤ s.lo) : GoesRound (l ++ [s]) := by
  rcases h.cases ha hb with ⟨hasc, -⟩ | ⟨hlt, -⟩
  · exact (hasc.append fun c hc => (hasc.le_getLast hb hc).trans hs).goesRound
  · exact absurd hab hlt.not_ge

theorem wrap (ha : l.head? = some a) (hb : l.getLast? = some b)
    (hab : a.lo ≤ b.lo) (hs : s.hi ≤ a.lo) (hlt : s.lo < a.lo) : GoesRound (l ++ [s]) := by
  rcases h.cases ha hb with ⟨hasc, -⟩ | ⟨hba, -⟩
  · refine ⟨l, [s], rfl, hasc, List.pairwise_singleton .., ?_⟩
    intro c hc d hd
    rw [List.mem_singleton.1 hd]
    have hac := hasc.head_le ha hc
    exact ⟨hs.trans hac, hlt.trans_le hac⟩
  · exact absurd hab hba.not_ge

/-- The next span may be between the last and the first one, when the spans go round. -/
theorem between (ha : l.head? = some a) (hb : l.getLast? = some b)
    (hba : b.lo < a.lo) (hbs : b.hi ≤ s.lo) (hs : s.hi ≤ a.lo) (hlt : s.lo < a.lo) :
    GoesRound (l ++ [s]) := by
  rcases h.cases ha hb with ⟨-, hab⟩ | ⟨-, -, l₁, l₂, rfl, h₁, h₂, hhead, hlast, hround⟩
  · exact absurd hba hab.not_gt
  · refine ⟨l₁, l₂ ++ [s], List.append_assoc .., h₁,
      h₂.append fun c hc => (h₂.le_getLast hlast hc).trans hbs, ?_⟩
    intro c hc d hd
    rcases List.mem_append.1 hd with hd | hd
    · exact hround c hc d hd
    · rw [List.mem_singleton.1 hd]
      have hac := h₁.head_le hhead hc
      exact ⟨hs.trans hac, hlt.trans_le hac⟩

/-- **All spans are apart.** -/
theorem apart : l.Pairwise Span.Apart := by
  obtain ⟨l₁, l₂, rfl, h₁, h₂, hround⟩ := h
  refine List.pairwise_append.2 ⟨h₁.imp Span.apart_of_le, h₂.imp Span.apart_of_le, ?_⟩
  exact fun a ha b hb => (Span.apart_of_le (hround a ha b hb).1).symm

end

end GoesRound
