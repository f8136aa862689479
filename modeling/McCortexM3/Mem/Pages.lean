import McCortexM3.Mem.SlabPages
import Mathlib.Order.Bounds.Basic

/-!
# The page list

The runs of free pages are in the order of their addresses, and there are pages in use between any
two of them, so `rt_page_free` has to join what it frees with the run before it, with the run behind
it, or with both.

## Main definitions

* `pageAsserts` — the assertions of the loop of `rt_page_free`.
* `Pages.step`, `PageRegion.init` — any calls of `rt_page_alloc` and `rt_page_free`.
* `Separate` — the list is in order, and no two of its runs are adjacent.

## Main results

* `rtPageAlloc_separate`, `rtPageFree_separate` — both functions keep the list in order.
* `Pages.run_separate` — so every run of them does, and no page is lost.
* `Pages.run_lowestPages` — which pages `rt_page_alloc` takes.
-/

set_option linter.all false

namespace RtThread

open List

/-- The pages given to `rt_page_init`. -/
structure PageRegion where
  first : ℕ
  npages : ℕ
  notNull : first ≠ 0
  pos : npages ≠ 0

/-- The assertions of `rt_page_free` about the runs that its loop comes to. -/
def pageAsserts (n npages : ℕ) : List PlaceRun → Bool
  | [] => true
  | b :: l =>
    (decide (b.count > 0) && (decide (b.first > n) || decide (b.first + b.count ≤ n))) &&
      (decide (b.first + b.count = n) || decide (b.first = n + npages) ||
        decide (b.first > n + npages) || pageAsserts n npages l)

/-- `rt_page_list`, and the history: the pages that are allocated, and whether an assertion has
failed. -/
structure Pages where
  list : List PlaceRun
  allocated : ℕ → Bool
  failed : Bool

/-- The calls. -/
inductive PageOp
  | alloc (npages : ℕ)
  | free (n npages : ℕ)

/-- `rt_page_init`. -/
def PageRegion.init (r : PageRegion) : Pages where
  list := rtPageFree r.first r.npages []
  allocated := fun _ => false
  failed := false

namespace Pages

/-- The pages from `n` on become allocated, or free. -/
def mark (s : Pages) (n npages : ℕ) (b : Bool) : ℕ → Bool :=
  fun p => if PlaceRun.Covers ⟨n, npages⟩ p then b else s.allocated p

theorem mark_of_covers {s : Pages} {n npages p : ℕ} {b : Bool}
    (h : PlaceRun.Covers ⟨n, npages⟩ p) : s.mark n npages b p = b := if_pos h

theorem mark_of_not_covers {s : Pages} {n npages p : ℕ} {b : Bool}
    (h : ¬ PlaceRun.Covers ⟨n, npages⟩ p) : s.mark n npages b p = s.allocated p := if_neg h

/-- One call.  Ranges that are freed are allocated, and not empty. -/
def step (s : Pages) : PageOp → Option (Pages × List (Option ℕ))
  | .alloc npages =>
    let r := rtPageAlloc npages s.list
    match r.1 with
    | none => some ({ s with list := r.2 }, [none])
    | some page =>
      some ({ s with list := r.2, allocated := s.mark page npages true }, [some page])
  | .free n npages =>
    if npages ≠ 0 ∧ ∀ p ∈ List.range' n npages, s.allocated p = true then
      if pageAsserts n npages s.list then
        some ({ s with
          list := rtPageFree n npages s.list
          allocated := s.mark n npages false }, [])
      else some ({ s with failed := true }, [])
    else none

end Pages

/-! ### The order of the runs -/

/-- The runs are not empty, they are in order, and between any two of them there are other pages. -/
structure Separate (l : List PlaceRun) : Prop where
  pos : ∀ b ∈ l, 0 < b.count
  apart : l.Pairwise fun b b' => b.first + b.count < b'.first

namespace Separate

variable {b : PlaceRun} {l : List PlaceRun}

theorem nil : Separate [] := ⟨fun _ h => (not_mem_nil h).elim, List.Pairwise.nil⟩

theorem tail (h : Separate (b :: l)) : Separate l :=
  ⟨fun b' hb' => h.pos b' (mem_cons_of_mem b hb'), h.apart.of_cons⟩

theorem head_pos (h : Separate (b :: l)) : 0 < b.count := h.pos b mem_cons_self

theorem lt_of_mem (h : Separate (b :: l)) {b' : PlaceRun} (hb' : b' ∈ l) :
    b.first + b.count < b'.first := rel_of_pairwise_cons h.apart hb'

theorem cons (hpos : 0 < b.count) (hlt : ∀ b' ∈ l, b.first + b.count < b'.first)
    (h : Separate l) : Separate (b :: l) where
  pos := fun b' hb' => by
    rcases mem_cons.1 hb' with rfl | hb'
    · exact hpos
    · exact h.pos b' hb'
  apart := pairwise_cons.2 ⟨hlt, h.apart⟩

end Separate

variable {l : List PlaceRun}

/-- What the loop of `rt_page_alloc` leaves begins where there was a run, or behind its beginning. -/
theorem le_of_mem_pageAlloc {n lo : ℕ} (h : ∀ b ∈ l, lo < b.first)
    {b : PlaceRun} (hb : b ∈ (pageAlloc n l).2) : lo < b.first := by
  induction l with
  | nil => exact (not_mem_nil hb).elim
  | cons b' l ih =>
    have hhead := h b' mem_cons_self
    have htail : ∀ b ∈ l, lo < b.first := fun b hb => h b (mem_cons_of_mem b' hb)
    unfold pageAlloc at hb
    split at hb
    case isTrue =>
      rcases mem_cons.1 hb with rfl | hb
      · exact Nat.lt_add_right n hhead
      · exact htail b hb
    case isFalse =>
      split at hb
      case isTrue => exact htail b hb
      case isFalse =>
        rcases mem_cons.1 hb with rfl | hb
        · exact hhead
        · exact ih htail hb

theorem pageAlloc_separate (n : ℕ) (h : Separate l) : Separate (pageAlloc n l).2 := by
  induction l with
  | nil => exact h
  | cons b l ih =>
    unfold pageAlloc
    split
    case isTrue hgt =>
      refine Separate.cons (Nat.sub_pos_of_lt hgt) (fun b' hb' => ?_) h.tail
      have hlt := h.lt_of_mem hb'
      dsimp only
      omega
    case isFalse =>
      split
      case isTrue => exact h.tail
      case isFalse =>
        exact Separate.cons h.head_pos
          (fun b' hb' => le_of_mem_pageAlloc (fun _ => h.lt_of_mem) hb') (ih h.tail)

theorem rtPageAlloc_separate (n : ℕ) (h : Separate l) : Separate (rtPageAlloc n l).2 := by
  unfold rtPageAlloc
  split
  · exact h
  · exact pageAlloc_separate n h

theorem pageAlloc_of_none {n : ℕ} (h : (pageAlloc n l).1 = none) : (pageAlloc n l).2 = l := by
  induction l with
  | nil => rfl
  | cons b l ih =>
    unfold pageAlloc at h ⊢
    split at h
    case isTrue => cases h
    case isFalse hgt =>
      rw [if_neg hgt]
      split at h
      case isTrue => cases h
      case isFalse heq =>
        rw [if_neg heq]
        exact congrArg (b :: ·) (ih h)

theorem rtPageAlloc_of_none {n : ℕ} (h : (rtPageAlloc n l).1 = none) : (rtPageAlloc n l).2 = l := by
  unfold rtPageAlloc at h ⊢
  split at h
  case isTrue hn => rw [if_pos hn]
  case isFalse hn =>
    rw [if_neg hn]
    exact pageAlloc_of_none h

/-- The range has no page in common with the runs. -/
def Outside (n npages : ℕ) (l : List PlaceRun) : Prop :=
  ∀ b ∈ l, b.first + b.count ≤ n ∨ n + npages ≤ b.first

theorem pageAsserts_of_outside {n npages : ℕ} (h : Separate l)
    (hout : Outside n npages l) (hpos : npages ≠ 0) : pageAsserts n npages l = true := by
  induction l with
  | nil => rfl
  | cons b l ih =>
    have hb := hout b mem_cons_self
    have hcount := h.head_pos
    have hrest := ih h.tail fun b' hb' => hout b' (mem_cons_of_mem b hb')
    unfold pageAsserts
    rw [hrest, Bool.or_true, Bool.and_true, decide_eq_true hcount, Bool.true_and]
    rcases hb with hb | hb
    · rw [decide_eq_true hb, Bool.or_true]
    · rw [decide_eq_true (show b.first > n by omega), Bool.true_or]

/-- What is in the list afterwards begins where a run did, or where the range does. -/
theorem lt_of_mem_rtPageFree {n npages lo : ℕ} (hlo : lo < n)
    (h : ∀ b ∈ l, lo < b.first) {b : PlaceRun} (hb : b ∈ rtPageFree n npages l) :
    lo < b.first := by
  induction l with
  | nil =>
    cases mem_singleton.1 hb
    exact hlo
  | cons b' l ih =>
    have hhead := h b' mem_cons_self
    have htail : ∀ b ∈ l, lo < b.first := fun b hb => h b (mem_cons_of_mem b' hb)
    unfold rtPageFree at hb
    split at hb
    case isTrue =>
      -- joined with the run before it, whose beginning stays
      cases l with
      | nil =>
        cases mem_singleton.1 hb
        exact hhead
      | cons b'' l =>
        dsimp only at hb
        split at hb
        all_goals rcases mem_cons.1 hb with rfl | hb
        · exact hhead
        · exact htail b (mem_cons_of_mem b'' hb)
        · exact hhead
        · exact htail b hb
    case isFalse =>
      split at hb
      case isTrue =>
        rcases mem_cons.1 hb with rfl | hb
        · exact hlo
        · exact htail b hb
      case isFalse =>
        split at hb
        case isTrue =>
          rcases mem_cons.1 hb with rfl | hb
          · exact hlo
          · exact h b hb
        case isFalse =>
          rcases mem_cons.1 hb with rfl | hb
          · exact hhead
          · exact ih htail hb

/-- `rt_page_free` joins the range with the runs on both sides of it. -/
theorem rtPageFree_separate {n npages : ℕ} (h : Separate l)
    (hout : Outside n npages l) (hpos : npages ≠ 0) : Separate (rtPageFree n npages l) := by
  induction l with
  | nil => exact Separate.cons (Nat.pos_of_ne_zero hpos) (fun _ hb => (not_mem_nil hb).elim) h
  | cons b l ih =>
    have hb := hout b mem_cons_self
    have hcount := h.head_pos
    have htail : Outside n npages l := fun b' hb' => hout b' (mem_cons_of_mem b hb')
    unfold rtPageFree
    split
    case isTrue hend =>
      -- the run before it grows, perhaps up to the next one and over it
      cases l with
      | nil =>
        exact Separate.cons (Nat.add_pos_left hcount _)
          (fun _ hb => (not_mem_nil hb).elim) Separate.nil
      | cons b' l =>
        have hlt := h.lt_of_mem mem_cons_self
        have hb' := htail b' mem_cons_self
        dsimp only
        split
        case isTrue hnext =>
          refine Separate.cons (by dsimp only; omega) (fun b'' hb'' => ?_) h.tail.tail
          have hlt' := h.tail.lt_of_mem hb''
          dsimp only
          omega
        case isFalse hnext =>
          refine Separate.cons (by dsimp only; omega) (fun b'' hb'' => ?_) h.tail
          have hge : b'.first ≤ b''.first := by
            rcases mem_cons.1 hb'' with rfl | hb''
            · exact Nat.le_refl _
            · have hlt' := h.tail.lt_of_mem hb''
              omega
          dsimp only
          omega
    case isFalse hend =>
      split
      case isTrue hfront =>
        refine Separate.cons (by dsimp only; omega) (fun b' hb' => ?_) h.tail
        have hlt := h.lt_of_mem hb'
        dsimp only
        omega
      case isFalse hfront =>
        split
        case isTrue hbefore =>
          refine Separate.cons (Nat.pos_of_ne_zero hpos) (fun b' hb' => ?_) h
          rcases mem_cons.1 hb' with rfl | hb'
          · exact hbefore
          · have hlt := h.lt_of_mem hb'
            dsimp only
            omega
        case isFalse hbefore =>
          -- the range is behind this run, and does not touch it
          exact Separate.cons hcount
            (fun b' hb' => lt_of_mem_rtPageFree (by omega) (fun _ => h.lt_of_mem) hb')
            (ih h.tail htail)

namespace Pages

variable {r : PageRegion} {s s' : Pages} {out : List (Option ℕ)}

/-- Every page of the region is on the list or allocated, and no assertion has failed. -/
structure Inv (r : PageRegion) (s : Pages) : Prop where
  separate : Separate s.list
  pages : ∀ p, cover s.list p + (if s.allocated p = true then 1 else 0) =
    if PlaceRun.Covers ⟨r.first, r.npages⟩ p then 1 else 0
  ok : s.failed = false

theorem inv_init (r : PageRegion) : Inv r r.init where
  separate := Separate.cons (Nat.pos_of_ne_zero r.pos)
    (fun _ hb => (not_mem_nil hb).elim) Separate.nil
  pages := fun p => by
    show cover [⟨r.first, r.npages⟩] p + 0 = _
    rw [cover_cons, cover_nil, Nat.zero_add, Nat.add_zero]
  ok := rfl

theorem Inv.cover_eq_zero (h : Inv r s) {p : ℕ} (hp : s.allocated p = true) :
    cover s.list p = 0 := by
  have hpages := h.pages p
  rw [if_pos hp] at hpages
  split at hpages <;> omega

theorem Inv.outside (h : Inv r s) {n npages : ℕ} (hpos : npages ≠ 0)
    (hall : ∀ p ∈ range' n npages, s.allocated p = true) : Outside n npages s.list := by
  intro b hb
  by_contra hmeet
  -- the first page that would be in both
  have hcount := h.separate.pos b hb
  have hin : max b.first n ∈ range' n npages := by
    rw [mem_range'_1]
    omega
  have hcover : 0 < cover s.list (max b.first n) := by
    refine cover_pos hb ?_
    unfold PlaceRun.Covers
    omega
  have hzero := h.cover_eq_zero (hall _ hin)
  omega

theorem inv_step {op : PageOp} (h : Inv r s) (hs : s.step op = some (s', out)) : Inv r s' := by
  cases op with
  | alloc npages =>
    unfold step at hs
    dsimp only at hs
    split at hs
    case h_1 hnone =>
      cases hs
      rw [rtPageAlloc_of_none hnone]
      exact ⟨h.separate, h.pages, h.ok⟩
    case h_2 page hpage =>
      cases hs
      refine ⟨rtPageAlloc_separate npages h.separate, fun p => ?_, h.ok⟩
      have hcover := (cover_rtPageAlloc hpage).2 p
      have hpages := h.pages p
      rw [← hcover, cover_cons] at hpages
      show _ + (if s.mark page npages true p = true then 1 else 0) = _
      split at hpages
      case isTrue hin =>
        -- a page of the allocation was on the list, so it was not allocated
        have hzero : ¬ s.allocated p = true := by
          intro hp
          rw [if_pos hp] at hpages
          split at hpages <;> omega
        rw [if_neg hzero] at hpages
        rw [mark_of_covers hin, if_pos rfl]
        exact hpages
      case isFalse hnot =>
        rw [mark_of_not_covers hnot]
        exact hpages
  | free n npages =>
    unfold step at hs
    dsimp only at hs
    split at hs
    case isFalse => cases hs
    case isTrue hcond =>
      obtain ⟨hpos, hall⟩ := hcond
      have hout := h.outside hpos hall
      rw [if_pos (pageAsserts_of_outside h.separate hout hpos)] at hs
      cases hs
      refine ⟨rtPageFree_separate h.separate hout hpos, fun p => ?_, h.ok⟩
      have hpages := h.pages p
      show _ + (if s.mark n npages false p = true then 1 else 0) = _
      rw [cover_rtPageFree, cover_cons]
      split
      case isTrue hin =>
        have hp := hall p (mem_range'_1.2 hin)
        rw [if_pos hp] at hpages
        rw [mark_of_covers hin]
        exact hpages
      case isFalse hnot =>
        rw [mark_of_not_covers hnot]
        exact hpages

/-- **The page list**: in every run in which the ranges that are freed are allocated, the runs of the
list are in order, apart and not adjacent, each page of the region is either on the list or
allocated and no other page is, and no assertion fails. -/
theorem run_separate {tr : List (Option ℕ)}
    (h : Run step (fun _ _ => True) r.init tr s) :
    Separate s.list ∧
      (∀ p, cover s.list p + (if s.allocated p = true then 1 else 0) =
        if PlaceRun.Covers ⟨r.first, r.npages⟩ p then 1 else 0) ∧
      s.failed = false := by
  have hinv : Inv r s := h.invariant (fun _ => Inv r) (inv_init r) fun hI _ hs => inv_step hI hs
  exact ⟨hinv.separate, hinv.pages, hinv.ok⟩

/-- Of eight pages two and three are allocated; the last of the three is joined with the run behind
it, the first with the run of the two before it, and the one in the middle with both. -/
theorem run_separate_middle :
    ∃ s : Pages, s.list = [⟨1, 8⟩] ∧ Separate s.list ∧ s.failed = false := by
  have hexec : (exec step (fun _ _ => True) (PageRegion.init ⟨1, 8, by decide, by decide⟩)
      [.alloc 2, .alloc 3, .free 5 1, .free 1 2, .free 3 1, .free 4 1]) = some (_, _) := rfl
  have hrun := Run.of_exec hexec
  exact ⟨_, rfl, (run_separate hrun).1, (run_separate hrun).2.2⟩

end Pages

/-! ### The pages that are taken -/

/-- The first pages of `n` ones that are in one run of the list. -/
def LongRuns (n : ℕ) (l : List PlaceRun) : Set ℕ :=
  {p | ∃ b ∈ l, b.first ≤ p ∧ p + n ≤ b.first + b.count}

section

variable {l : List PlaceRun} {n p page : ℕ}

theorem Separate.mem_longRuns (h : Separate l) (hn : 0 < n)
    (hfree : ∀ q, p ≤ q → q < p + n → 0 < cover l q) : p ∈ LongRuns n l := by
  induction l with
  | nil => simpa using hfree p le_rfl (by omega)
  | cons b l ih =>
    have hnext : ∀ q, 0 < cover l q → b.first + b.count < q := by
      intro q hq
      obtain ⟨b', hb', hin⟩ := countP_pos_iff.1 hq
      have hlt := h.lt_of_mem hb'
      have hin := (of_decide_eq_true hin).1
      omega
    have hcases : ∀ q, p ≤ q → q < p + n → b.first ≤ q ∧ q < b.first + b.count ∨ 0 < cover l q := by
      intro q hle hlt
      have hq := hfree q hle hlt
      rw [cover_cons] at hq
      split at hq
      · next hin => exact .inl hin
      · exact .inr hq
    rcases hcases p le_rfl (by omega) with hin | hp
    · refine ⟨b, mem_cons_self, hin.1, ?_⟩
      by_contra hend
      have hbehind := hcases (b.first + b.count) (by omega) (by omega)
      have hlt := hnext (b.first + b.count)
      omega
    · have hlt := hnext p hp
      obtain ⟨b', hb', hrun⟩ := ih h.tail fun q hle hq =>
        (hcases q hle hq).resolve_left (by omega)
      exact ⟨b', mem_cons_of_mem _ hb', hrun⟩

theorem Separate.pageAlloc_iff (h : Separate l) :
    (pageAlloc n l).1 = some page ↔ IsLeast (LongRuns n l) page := by
  induction l with
  | nil => simp [pageAlloc, IsLeast, LongRuns]
  | cons b l ih =>
    rcases Nat.lt_or_ge b.count n with hlt | hle
    · have hset : LongRuns n (b :: l) = LongRuns n l := by
        ext p
        simp only [LongRuns, mem_cons, exists_eq_or_imp, Set.mem_ofPred_eq]
        exact or_iff_right (by omega)
      rw [hset, pageAlloc, if_neg (by omega), if_neg (by omega)]
      exact ih h.tail
    · have hleast : IsLeast (LongRuns n (b :: l)) b.first := by
        refine ⟨⟨b, mem_cons_self, le_rfl, by omega⟩, ?_⟩
        rintro p ⟨b', hb', hp, -⟩
        rcases mem_cons.1 hb' with rfl | hb'
        · exact hp
        · have hlt := h.lt_of_mem hb'
          omega
      have hfirst : (pageAlloc n (b :: l)).1 = some b.first := by
        rw [pageAlloc]
        split
        · rfl
        · rw [if_pos (by omega)]
      rw [hfirst, Option.some.injEq]
      exact ⟨fun he => he ▸ hleast, fun hp => hleast.unique hp⟩

end

namespace Pages

variable {r : PageRegion} {s : Pages}

/-- **`rt_page_alloc` returns the first of the lowest pages** that are free one behind the other, in
every run, and `RT_NULL` only when no such pages are left. -/
theorem run_lowestPages {tr : List (Option ℕ)} (h : Run step (fun _ _ => True) r.init tr s)
    (npages page : ℕ) (hpos : npages ≠ 0) :
    (rtPageAlloc npages s.list).1 = some page ↔
      IsLeast {p | ∀ q, p ≤ q → q < p + npages →
        PlaceRun.Covers ⟨r.first, r.npages⟩ q ∧ s.allocated q = false} page := by
  have hinv : Inv r s := h.invariant (fun _ => Inv r) (inv_init r) fun hI _ hs => inv_step hI hs
  have hfree : ∀ q, 0 < cover s.list q ↔
      PlaceRun.Covers ⟨r.first, r.npages⟩ q ∧ s.allocated q = false := by
    intro q
    have hq := hinv.pages q
    cases hall : s.allocated q with
    | true => simp [hinv.cover_eq_zero hall]
    | false =>
      simp only [hall, Bool.false_eq_true, if_false, Nat.add_zero] at hq
      rw [hq]
      split <;> simp_all
  have hset : LongRuns npages s.list = {p | ∀ q, p ≤ q → q < p + npages →
      PlaceRun.Covers ⟨r.first, r.npages⟩ q ∧ s.allocated q = false} := by
    ext p
    constructor
    · rintro ⟨b, hb, hfirst, hend⟩ q hle hlt
      exact (hfree q).1 (cover_pos hb ⟨by omega, by omega⟩)
    · intro hp
      exact hinv.separate.mem_longRuns (Nat.pos_of_ne_zero hpos) fun q hle hlt =>
        (hfree q).2 (hp q hle hlt)
  rw [rtPageAlloc, if_neg hpos, hinv.separate.pageAlloc_iff, hset]

theorem run_lowestPages_behind :
    ∃ s : Pages, s.list = [⟨1, 2⟩, ⟨4, 5⟩] ∧ IsLeast {p | ∀ q, p ≤ q → q < p + 3 →
      PlaceRun.Covers ⟨1, 8⟩ q ∧ s.allocated q = false} 4 := by
  have hexec : (exec step (fun _ _ => True) (PageRegion.init ⟨1, 8, by decide, by decide⟩)
      [.alloc 2, .alloc 1, .free 1 2]) = some (_, _) := rfl
  exact ⟨_, rfl, (run_lowestPages (Run.of_exec hexec) 3 4 (by decide)).1 rfl⟩

end Pages

end RtThread
