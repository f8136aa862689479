import McCortexM3.Timer.Timer
import Mathlib.Data.List.TakeWhile

/-!
# The rows of the skip lists

What the pointers stand for: for each of the two timer lists and each row, a list of timers.
The search and the insertion of `rt_timer_start` are described on these lists.

## Main definitions

* `RowRep`, `Timers.Rep` — the pointers of a row, and of all rows, stand for lists of timers.
* `Timers.place` — where the search in a row ends.

## Main results

* `Rep.timerRemove`, `Rep.startInsert` — the two functions that write pointers.
* `Timers.isSome_startInsert` — the search ends.
-/

set_option linter.all false

namespace RtThread

open Function Option List Nat Links
open Function (update)

variable {Tm : Type} [DecidableEq Tm]

/-! ### One row -/

/-- The entry of the last timer of `l`, or the head. -/
def lastEntry (soft : Bool) (l : List Tm) : Entry Tm := lastFrom (.head soft) (l.map .timer)

/-- The pointers `p` of a row stand for the lists `f`: the timers of each belong to it by `g`,
and the others are in no list. -/
structure RowRep (g : Tm → Bool) (p : Links (Entry Tm)) (f : Bool → List Tm) : Prop where
  ring : ∀ soft, Circular p (.head soft) ((f soft).map .timer)
  alone : ∀ t, t ∉ f (g t) → p.Alone (.timer t)
  list : ∀ soft t, t ∈ f soft → g t = soft

namespace RowRep

variable {g : Tm → Bool} {p : Links (Entry Tm)} {f : Bool → List Tm} {t u : Tm} {soft : Bool}

theorem mem_map_timer {l : List Tm} : Entry.timer t ∈ l.map Entry.timer ↔ t ∈ l := by simp

section

variable (h : RowRep g p f)
include h

theorem nodup (soft : Bool) : (f soft).Nodup :=
  (nodup_cons.1 (h.ring soft).nodup).2.of_map _

theorem not_mem_of_ne {soft' : Bool} (hne : soft' ≠ soft) {m : Entry Tm}
    (hm : m ∈ .head soft' :: (f soft').map .timer) : m ∉ .head soft :: (f soft).map .timer := by
  intro hm'
  rcases mem_cons.1 hm with rfl | hm
  · simp [hne] at hm'
  · obtain ⟨u, hu, rfl⟩ := List.mem_map.1 hm
    have hu' : u ∈ f soft := by simpa using hm'
    exact hne ((h.list soft' u hu).symm.trans (h.list soft u hu'))

theorem not_mem_entries (hu : u ∉ f (g u)) (soft : Bool) :
    Entry.timer u ∉ .head soft :: (f soft).map .timer := by
  intro hm
  have hmem : u ∈ f soft := by simpa using hm
  rw [← h.list soft u hmem] at hmem
  exact hu hmem

theorem remove (t : Tm) : RowRep g (p.remove (.timer t)) fun soft => (f soft).filter (· ≠ t) := by
  by_cases ht : t ∈ f (g t)
  · obtain ⟨l₁, l₂, hl⟩ := append_of_mem ht
    have hmem : Entry.timer t ∈ .head (g t) :: (f (g t)).map .timer :=
      mem_cons_of_mem _ (mem_map_timer.2 ht)
    have hnodup := h.nodup (g t)
    rw [hl] at hnodup
    -- the timer is once in its list
    have hfilter : (f (g t)).filter (· ≠ t) = l₁ ++ l₂ := by
      obtain ⟨-, hnodup₂, hdisj⟩ := nodup_append.1 hnodup
      have hne₁ : ∀ u ∈ l₁, u ≠ t := fun u hu => hdisj u hu t mem_cons_self
      have hne₂ : ∀ u ∈ l₂, u ≠ t := by
        rintro u hu rfl
        exact (nodup_cons.1 hnodup₂).1 hu
      rw [hl, filter_append, filter_cons_of_neg (by simp),
        filter_eq_self.2 fun u hu => by simpa using hne₁ u hu,
        filter_eq_self.2 fun u hu => by simpa using hne₂ u hu]
    refine ⟨?_, ?_, fun soft u hu => h.list soft u (mem_of_mem_filter hu)⟩
    · intro soft
      by_cases hsoft : soft = g t
      · subst hsoft
        rw [hfilter, map_append]
        have hring := h.ring (g t)
        rw [hl, map_append, map_cons] at hring
        exact hring.remove
      · -- the other list is untouched
        have hself : (f soft).filter (· ≠ t) = f soft := by
          apply filter_eq_self.2
          intro u hu
          have hne : u ≠ t := by
            rintro rfl
            exact hsoft (h.list soft u hu).symm
          simpa using hne
        rw [hself]
        exact (h.ring soft).congr fun m hm => (h.ring (g t)).remove_frame hmem
          (h.not_mem_of_ne hsoft hm)
    · intro u hu
      by_cases hut : u = t
      · rw [hut]
        exact alone_remove p _
      · have hu' : u ∉ f (g u) := by simpa [hut] using hu
        obtain ⟨hnext, hprev⟩ := (h.ring (g t)).remove_frame hmem (h.not_mem_entries hu' (g t))
        rw [Alone, hnext, hprev]
        exact h.alone u hu'
  · -- the timer is alone, and taking it out does nothing
    have hself : (fun soft => (f soft).filter (· ≠ t)) = f := by
      funext soft
      apply filter_eq_self.2
      intro u hu
      have hne : u ≠ t := by
        rintro rfl
        rw [← h.list soft u hu] at hu
        exact ht hu
      simpa using hne
    rw [hself, (h.alone t ht).remove_eq]
    exact h

theorem insert (ht : t ∉ f (g t)) {l₁ l₂ : List Tm}
    (hl : f (g t) = l₁ ++ l₂) :
    RowRep g (p.insertAfter (lastEntry (g t) l₁) (.timer t)) (update f (g t) (l₁ ++ t :: l₂)) := by
  have hring := h.ring (g t)
  rw [hl, map_append] at hring
  have hlast : lastEntry (g t) l₁ ∈ .head (g t) :: (f (g t)).map .timer := by
    rw [hl, map_append]
    exact cons_subset_cons _ (subset_append_left ..) (lastFrom_mem _ _)
  have hmem : ∀ soft u, u ∈ update f (g t) (l₁ ++ t :: l₂) soft → u = t ∨ u ∈ f soft := by
    intro soft u hu
    by_cases hsoft : soft = g t
    · subst hsoft
      rw [update_self] at hu
      rw [hl]
      rcases mem_append.1 hu with hu | hu
      · exact .inr (mem_append_left _ hu)
      · rcases mem_cons.1 hu with hu | hu
        · exact .inl hu
        · exact .inr (mem_append_right _ hu)
    · exact .inr (by simpa [hsoft] using hu)
  refine ⟨?_, ?_, ?_⟩
  · intro soft
    by_cases hsoft : soft = g t
    · subst hsoft
      rw [update_self, map_append, map_cons]
      apply hring.insertAfter
      rw [← map_append, ← hl]
      exact h.not_mem_entries ht (g t)
    · rw [update_of_ne hsoft]
      refine (h.ring soft).congr fun m hm => (h.ring (g t)).insertAfter_frame hlast
        (h.not_mem_of_ne hsoft hm) ?_
      rintro rfl
      exact h.not_mem_entries ht soft hm
  · intro u hu
    have hut : u ≠ t := by
      rintro rfl
      simp at hu
    have hu' : u ∉ f (g u) := by
      by_cases hsoft : g u = g t
      · rw [hsoft, update_self] at hu
        rw [hsoft, hl]
        simp only [mem_append, mem_cons, not_or] at hu ⊢
        exact ⟨hu.1, hu.2.2⟩
      · simpa [hsoft] using hu
    obtain ⟨hnext, hprev⟩ := (h.ring (g t)).insertAfter_frame hlast
      (h.not_mem_entries hu' (g t)) (n := .timer t) (by simpa using hut)
    rw [Alone, hnext, hprev]
    exact h.alone u hu'
  · intro soft u hu
    rcases hmem soft u hu with rfl | hu
    · by_cases hsoft : soft = g u
      · exact hsoft.symm
      · rw [update_of_ne hsoft] at hu
        exact h.list soft u hu
    · exact h.list soft u hu

theorem not_alone (ht : t ∈ f soft) : ¬ p.Alone (.timer t) := by
  rintro ⟨hnext, -⟩
  obtain ⟨l₁, l₂, hl⟩ := append_of_mem ht
  have hring := h.ring soft
  rw [hl, map_append, map_cons] at hring
  rw [(path_append.1 hring.path).2.next_start] at hnext
  cases l₂ with
  | nil => cases hnext
  | cons u l₂ =>
    obtain rfl : u = t := by simpa using hnext
    have hnodup := h.nodup soft
    rw [hl] at hnodup
    exact (nodup_cons.1 (nodup_append.1 hnodup).2.1).1 mem_cons_self

theorem alone_iff : p.Alone (.timer t) ↔ t ∉ f (g t) :=
  ⟨fun ha ht => h.not_alone ht ha, h.alone t⟩

end

end RowRep

namespace Timers

variable [TimerConfig] {s s' : Timers Tm} {rows : Bool → ℕ → List Tm} {t u : Tm} {soft : Bool}
  {i : ℕ} {deadline : UInt32} {l₁ l₂ : List Tm}

/-! ### All rows -/

/-- The pointers stand for the rows `rows`, and each row is a part of the row below. -/
structure Rep (s : Timers Tm) (rows : Bool → ℕ → List Tm) : Prop where
  row : ∀ i < skipListLevel, RowRep s.softList (s.row i) fun soft => rows soft i
  sublist : ∀ soft i, i + 1 < skipListLevel → (rows soft i).Sublist (rows soft (i + 1))

/-- The last row of a timer list, with all its timers. -/
def bottom (rows : Bool → ℕ → List Tm) (soft : Bool) : List Tm := rows soft (skipListLevel - 1)

theorem lastRow_lt : skipListLevel - 1 < skipListLevel :=
  sub_lt skipListLevel_pos Nat.one_pos

theorem Rep.sublist_le (h : Rep s rows) (soft : Bool) {i j : ℕ} (hij : i ≤ j)
    (hj : j < skipListLevel) : (rows soft i).Sublist (rows soft j) := by
  induction hij with
  | refl => exact List.Sublist.refl _
  | step _ ih => exact (ih (lt_of_succ_lt hj)).trans (h.sublist soft _ hj)

theorem Rep.sublist_bottom (h : Rep s rows) (soft : Bool) (hi : i < skipListLevel) :
    (rows soft i).Sublist (bottom rows soft) :=
  h.sublist_le soft (by omega) lastRow_lt

theorem Rep.congr (h : Rep s rows) (hrow : s'.row = s.row) (hlist : s'.softList = s.softList) :
    Rep s' rows := by
  refine ⟨?_, h.sublist⟩
  intro i hi
  rw [hrow, hlist]
  exact h.row i hi

theorem Rep.timerRemove (h : Rep s rows) (t : Tm) :
    Rep (s.timerRemove t) fun soft i => (rows soft i).filter (· ≠ t) :=
  ⟨fun i hi => (h.row i hi).remove t, fun soft i hi => (h.sublist soft i hi).filter _⟩

/-- The timer is in no row. -/
def Unlinked (s : Timers Tm) (t : Tm) : Prop :=
  ∀ i < skipListLevel, (s.row i).Alone (.timer t)

instance (s : Timers Tm) (t : Tm) : Decidable (s.Unlinked t) := by
  unfold Unlinked
  infer_instance

theorem unlinked_timerRemove (s : Timers Tm) (t : Tm) : (s.timerRemove t).Unlinked t :=
  fun i _ => alone_remove (s.row i) (.timer t)

theorem Rep.unlinked_iff (h : Rep s rows) : s.Unlinked t ↔ t ∉ bottom rows (s.softList t) := by
  constructor
  · intro hu
    exact (h.row _ lastRow_lt).alone_iff.1 (hu _ lastRow_lt)
  · intro hmem i hi
    refine (h.row i hi).alone_iff.2 fun ht => hmem ?_
    exact (h.sublist_bottom (s.softList t) hi).subset ht

/-! ### The search -/

theorem searchRow_eq (h : RowRep s.softList (s.row i) fun soft => rows soft i) (deadline : UInt32)
    (fuel : ℕ) (hl : rows soft i = l₁ ++ l₂) :
    s.searchRow soft deadline i fuel (lastEntry soft l₁) =
      if (l₂.takeWhile fun u => !s.stops deadline u).length < fuel then
        some (lastEntry soft (l₁ ++ l₂.takeWhile fun u => !s.stops deadline u))
      else none := by
  induction fuel generalizing l₁ l₂ with
  | zero => simp [searchRow]
  | succ fuel ih =>
    have hring := h.ring soft
    rw [hl] at hring
    have hprev : (s.row i).prev (.head soft) = lastEntry soft (l₁ ++ l₂) := hring.path.prev_eq
    rw [searchRow, hprev]
    cases l₂ with
    | nil => simp
    | cons u l₂ =>
      have hne : lastEntry soft l₁ ≠ lastEntry soft (l₁ ++ u :: l₂) := by
        have hlast : lastEntry soft (l₁ ++ u :: l₂) ∈ (u :: l₂).map Entry.timer := by
          rw [lastEntry, map_append, lastFrom_append, map_cons, lastFrom]
          exact lastFrom_mem _ _
        have hnodup := hring.nodup
        rw [map_append, ← cons_append] at hnodup
        have hdisj := (nodup_append.1 hnodup).2.2
        exact hdisj _ (lastFrom_mem _ _) _ hlast
      have hnext : (s.row i).next (lastEntry soft l₁) = .timer u := by
        rw [map_append] at hring
        exact hring.path.next_lastFrom
      rw [if_neg hne, hnext]
      dsimp only
      cases hstop : s.stops deadline u with
      | true => simp [hstop]
      | false =>
        have hl' : rows soft i = (l₁ ++ [u]) ++ l₂ := by simp [hl]
        have hlast : lastEntry soft (l₁ ++ [u]) = .timer u := by
          simp [lastEntry, lastFrom_append, lastFrom]
        rw [← hlast, if_neg (by simp), ih hl']
        simp [hstop]

/-- The part of a row after the timer `b`, from where the row is searched. -/
def splitAfter : Option Tm → List Tm → List Tm × List Tm
  | none, l => ([], l)
  | some b, l => (l.takeWhile (· ≠ b) ++ [b], (l.dropWhile (· ≠ b)).tail)

/-- The search goes on while timers do not stop it. -/
def advance (p : Tm → Bool) (c : List Tm × List Tm) : List Tm × List Tm :=
  (c.1 ++ c.2.takeWhile p, c.2.dropWhile p)

/-- The timers before and after the place where the search in the row `i` ends, on rows given
as lists. -/
def place (p : Tm → Bool) (row : ℕ → List Tm) : ℕ → List Tm × List Tm
  | 0 => advance p ([], row 0)
  | i + 1 => advance p (splitAfter (place p row i).1.getLast? (row (i + 1)))

/-- Where the search in the row `i` begins. -/
def start (p : Tm → Bool) (row : ℕ → List Tm) : ℕ → List Tm × List Tm
  | 0 => ([], row 0)
  | i + 1 => splitAfter (place p row i).1.getLast? (row (i + 1))

theorem place_eq (p : Tm → Bool) (row : ℕ → List Tm) (i : ℕ) :
    place p row i = advance p (start p row i) := by
  cases i <;> rfl

theorem splitAfter_append {b : Tm} (hb : b ∉ l₁) :
    splitAfter (some b) (l₁ ++ b :: l₂) = (l₁ ++ [b], l₂) := by
  have hne : ∀ u ∈ l₁, (decide (u ≠ b)) = true := by
    intro u hu
    apply decide_eq_true
    rintro rfl
    exact hb hu
  rw [splitAfter, takeWhile_append_of_pos hne, dropWhile_append_of_pos hne]
  simp

theorem sublist_split {a₁ a₂ : List Tm} {b : Tm} (h : (a₁ ++ b :: a₂).Sublist (l₁ ++ b :: l₂))
    (hnodup : (l₁ ++ b :: l₂).Nodup) : a₁.Sublist l₁ ∧ a₂.Sublist l₂ := by
  obtain ⟨x, y, hxy, hx, hy⟩ := sublist_append_iff.1 h
  obtain ⟨-, hnodup₂, hdisj⟩ := nodup_append.1 hnodup
  have hb₁ : b ∉ l₁ := fun hb => hdisj b hb b mem_cons_self rfl
  have hb₂ : b ∉ l₂ := (nodup_cons.1 hnodup₂).1
  have hby : b ∈ y := by
    have hmem : b ∈ x ++ y := by
      rw [← hxy]
      simp
    exact (mem_append.1 hmem).resolve_left fun hb => hb₁ (hx.subset hb)
  rcases sublist_cons_iff.1 hy with hy | ⟨z, rfl, hz⟩
  · exact absurd (hy.subset hby) hb₂
  · have hbx : b ∉ x := fun hb => hb₁ (hx.subset hb)
    have hbz : b ∉ z := fun hb => hb₂ (hz.subset hb)
    obtain ⟨rfl, -, rfl⟩ := (append_cons_inj_of_notMem hbx hbz).1 hxy.symm
    exact ⟨hx, hz⟩

theorem sublist_dropWhile {p : Tm → Bool} (h : l₁.Sublist l₂)
    (hhead : ∀ u ∈ l₁.head?, p u = false) : l₁.Sublist (l₂.dropWhile p) := by
  induction h with
  | slnil => exact List.Sublist.refl _
  | @cons l₁ l₂ a h ih =>
    rw [dropWhile_cons]
    split
    · exact ih hhead
    · exact h.cons a
  | @cons_cons l₁ l₂ a h ih =>
    rw [dropWhile_cons, hhead a (by simp)]
    exact h.cons_cons a

/-- What the search in a row finds: the last timer before the place does not stop it, and the
first one after it does. -/
structure PlaceIn (p : Tm → Bool) (row : List Tm) (c : List Tm × List Tm) : Prop where
  append : c.1 ++ c.2 = row
  last : ∀ u ∈ c.1.getLast?, p u = true
  first : ∀ u ∈ c.2.head?, p u = false

variable {p : Tm → Bool} {row : ℕ → List Tm} {n : ℕ} {rows' : Bool → ℕ → List Tm}

theorem placeIn_advance {c : List Tm × List Tm} {r : List Tm} (happend : c.1 ++ c.2 = r)
    (hlast : ∀ u ∈ c.1.getLast?, p u = true) : PlaceIn p r (advance p c) := by
  refine ⟨?_, ?_, ?_⟩
  · rw [advance, append_assoc, takeWhile_append_dropWhile, happend]
  · intro u hu
    rw [advance, getLast?_append] at hu
    cases htake : (c.2.takeWhile p).getLast? with
    | none =>
      rw [htake] at hu
      exact hlast u hu
    | some v =>
      rw [htake] at hu
      obtain rfl : v = u := by simpa using hu
      exact mem_takeWhile_imp (mem_of_getLast? htake)
  · intro u hu
    have hnot := head?_dropWhile_not p c.2
    rw [mem_def, advance] at hu
    rw [hu] at hnot
    simpa using hnot

section

variable (hsub : ∀ j, j + 1 < n → (row j).Sublist (row (j + 1))) (hnodup : ∀ j < n, (row j).Nodup)
include hsub hnodup

theorem start_append (hi : i < n) :
    (start p row i).1 ++ (start p row i).2 = row i ∧
      (∀ u ∈ (start p row i).1.getLast?, p u = true) ∧
      ∀ j, i = j + 1 → (start p row i).1.getLast? = (place p row j).1.getLast? ∧
        (place p row j).1.Sublist (start p row i).1 ∧
        (place p row j).2.Sublist (start p row i).2 := by
  induction i with
  | zero => exact ⟨rfl, by simp [start], nofun⟩
  | succ i ih =>
    obtain ⟨happend, hlast, -⟩ := ih (lt_of_succ_lt hi)
    -- where the search has stopped in the row above
    have hplace : PlaceIn p (row i) (place p row i) := by
      rw [place_eq]
      exact placeIn_advance happend hlast
    have hsub' := hsub i hi
    rw [← hplace.append] at hsub'
    cases hb : (place p row i).1.getLast? with
    | none =>
      have hnil : (place p row i).1 = [] := getLast?_eq_none_iff.1 hb
      rw [start, hb]
      refine ⟨rfl, by simp [splitAfter], ?_⟩
      intro j hj
      obtain rfl : i = j := by omega
      rw [hnil] at hsub' ⊢
      exact ⟨rfl, List.Sublist.refl _, hsub'⟩
    | some b =>
      -- the search goes on behind `b`, which is in this row too
      obtain ⟨a, ha⟩ := getLast?_eq_some_iff.1 hb
      have hmem : b ∈ row (i + 1) := hsub'.subset (by simp [ha])
      obtain ⟨c, d, hcd⟩ := append_of_mem hmem
      have hnodup' := hnodup (i + 1) hi
      rw [hcd] at hnodup' hsub'
      have hbc : b ∉ c := fun hbc =>
        (nodup_append.1 hnodup').2.2 b hbc b mem_cons_self rfl
      have hstart : start p row (i + 1) = (c ++ [b], d) := by
        rw [start, hb, hcd, splitAfter_append hbc]
      rw [ha, append_assoc, singleton_append] at hsub'
      obtain ⟨hac, had⟩ := sublist_split hsub' hnodup'
      rw [hstart]
      refine ⟨by rw [hcd]; simp, ?_, ?_⟩
      · intro u hu
        obtain rfl : b = u := by simpa using hu
        exact hplace.last b hb
      · intro j hj
        obtain rfl : i = j := by omega
        rw [ha]
        exact ⟨by simp, hac.append (List.Sublist.refl _), had⟩

theorem placeIn_place (hi : i < n) : PlaceIn p (row i) (place p row i) := by
  obtain ⟨happend, hlast, -⟩ := start_append (p := p) hsub hnodup hi
  rw [place_eq]
  exact placeIn_advance happend hlast

theorem place_sublist (hi : i + 1 < n) :
    (place p row i).1.Sublist (place p row (i + 1)).1 ∧
      (place p row i).2.Sublist (place p row (i + 1)).2 := by
  obtain ⟨-, -, hnext⟩ := start_append (p := p) hsub hnodup hi
  obtain ⟨-, hbefore, hafter⟩ := hnext i rfl
  have hplace := placeIn_place (p := p) hsub hnodup (lt_of_succ_lt hi)
  rw [place_eq p row (i + 1), advance]
  exact ⟨hbefore.trans (sublist_append_left ..), sublist_dropWhile hafter hplace.first⟩

end

/-! ### `rt_timer_start` on rows -/

theorem lastEntry_eq (soft : Bool) (l : List Tm) :
    lastEntry soft l = (l.getLast?.map Entry.timer).getD (.head soft) := by
  cases hl : l.getLast? with
  | none =>
    rw [getLast?_eq_none_iff.1 hl]
    rfl
  | some b =>
    obtain ⟨a, rfl⟩ := getLast?_eq_some_iff.1 hl
    simp [lastEntry, lastFrom_append, lastFrom]

theorem Rep.nodup (h : Rep s rows) (soft : Bool) (hi : i < skipListLevel) :
    (rows soft i).Nodup := (h.row i hi).nodup soft

/-- The place of a deadline in each row. -/
def placeOf (s : Timers Tm) (rows : Bool → ℕ → List Tm) (soft : Bool) (deadline : UInt32) :
    ℕ → List Tm × List Tm := place (fun u => !s.stops deadline u) (rows soft)

theorem Rep.placeIn (h : Rep s rows) (soft : Bool) (deadline : UInt32) (hi : i < skipListLevel) :
    PlaceIn (fun u => !s.stops deadline u) (rows soft i) (s.placeOf rows soft deadline i) :=
  placeIn_place (h.sublist soft) (fun _ hj => h.nodup soft hj) hi

theorem rowHeads_eq (h : Rep s rows) (soft : Bool) (deadline : UInt32) (fuel : ℕ)
    (hn : i + n ≤ skipListLevel) :
    (∀ heads, s.rowHeads soft deadline fuel n i (lastEntry soft
        (start (fun u => !s.stops deadline u) (rows soft) i).1) = some heads →
      heads = (range' i n).map fun j => (j, lastEntry soft (s.placeOf rows soft deadline j).1)) ∧
    ((∀ j < skipListLevel, (rows soft j).length < fuel) →
      (s.rowHeads soft deadline fuel n i (lastEntry soft
        (start (fun u => !s.stops deadline u) (rows soft) i).1)).isSome = true) := by
  induction n generalizing i with
  | zero => simp [rowHeads]
  | succ n ih =>
    have hi : i < skipListLevel := by omega
    obtain ⟨happend, hlast, -⟩ :=
      start_append (p := fun u => !s.stops deadline u) (h.sublist soft)
        (fun _ hj => h.nodup soft hj) hi
    obtain ⟨c, hc⟩ : ∃ c, c = start (fun u => !s.stops deadline u) (rows soft) i := ⟨_, rfl⟩
    rw [← hc] at happend
    have hsearch := searchRow_eq (h.row i hi) deadline fuel happend.symm
    have hplace : c.1 ++ c.2.takeWhile (fun u => !s.stops deadline u) =
        (s.placeOf rows soft deadline i).1 := by
      rw [placeOf, place_eq, ← hc]
      rfl
    rw [hplace] at hsearch
    -- the row below is searched from where this search ends
    have hnext : i + 1 < skipListLevel →
        lastEntry soft (start (fun u => !s.stops deadline u) (rows soft) (i + 1)).1 =
          lastEntry soft (s.placeOf rows soft deadline i).1 := by
      intro hi'
      obtain ⟨-, -, hstart⟩ :=
        start_append (p := fun u => !s.stops deadline u) (h.sublist soft)
          (fun _ hj => h.nodup soft hj) hi'
      rw [lastEntry_eq, (hstart i rfl).1, ← lastEntry_eq]
      rfl
    rw [← hc]
    simp only [rowHeads, hsearch]
    refine ⟨?_, ?_⟩
    · intro heads hheads
      obtain ⟨e, he, hheads⟩ := bind_eq_some_iff.1 hheads
      obtain ⟨rest, hrest, rfl⟩ := map_eq_some_iff.1 hheads
      simp only [ite_none_right_eq_some, some.injEq] at he
      obtain ⟨-, rfl⟩ := he
      rw [range'_succ, map_cons]
      congr 1
      cases n with
      | zero =>
        cases hrest
        rfl
      | succ n =>
        rw [← hnext (by omega)] at hrest
        exact (ih (by omega)).1 rest hrest
    · intro hfuel
      have hlt : (c.2.takeWhile fun u => !s.stops deadline u).length < fuel := by
        have hle := (takeWhile_sublist (l := c.2) fun u => !s.stops deadline u).length_le
        have hlen := hfuel i hi
        rw [← happend, length_append] at hlen
        omega
      rw [if_pos hlt, bind_some, isSome_map]
      cases n with
      | zero => rfl
      | succ n =>
        rw [← hnext (by omega)]
        exact (ih (by omega)).2 hfuel

theorem insertUpper_eq (t : Tm) (hd : ℕ → Entry Tm) (n : ℕ) (tstNr : UInt32)
    (row : ℕ → Links (Entry Tm)) :
    ∃ k ≤ n, insertUpper t ((List.range n).reverse.map fun j => (j, hd j)) tstNr row =
      fun i => if k ≤ i ∧ i < n then (row i).insertAfter (hd i) (.timer t) else row i := by
  induction n generalizing tstNr row with
  | zero => exact ⟨0, le_rfl, by simp [insertUpper]⟩
  | succ n ih =>
    rw [List.range_succ, reverse_append, reverse_singleton, singleton_append, map_cons, insertUpper]
    split
    · obtain ⟨k, hk, heq⟩ := ih (tstNr >>> ((skipListMask + 1) >>> 1)) (insertRow t n (hd n) row)
      refine ⟨k, by omega, ?_⟩
      rw [heq]
      funext i
      by_cases hi : i = n
      · subst hi
        simp [insertRow, hk]
      · by_cases hki : k ≤ i ∧ i < n
        · rw [if_pos hki, if_pos ⟨hki.1, by omega⟩, insertRow, update_of_ne hi]
        · rw [if_neg hki, if_neg (by omega), insertRow, update_of_ne hi]
    · refine ⟨n + 1, le_rfl, ?_⟩
      funext i
      rw [if_neg (by omega)]

/-- The rows after an insertion of `t` into the rows from `k` on. -/
def insertRows (s : Timers Tm) (rows : Bool → ℕ → List Tm) (t : Tm) (k : ℕ) :
    Bool → ℕ → List Tm := fun soft i =>
  if soft = s.softList t ∧ k ≤ i then
    let c := s.placeOf rows soft (s.timer t).timeoutTick i
    c.1 ++ t :: c.2
  else rows soft i

/-- What the second section of `rt_timer_start` does to the pointers. -/
theorem row_startInsert (h : Rep s rows) {fuel : ℕ} (hs : s.startInsert fuel t = some s') :
    ∃ k ≤ skipListLevel - 1, (∀ i < skipListLevel, s'.row i = if k ≤ i then
        (s.row i).insertAfter (lastEntry (s.softList t)
          (s.placeOf rows (s.softList t) (s.timer t).timeoutTick i).1) (.timer t)
      else s.row i) ∧
      s'.timer = update s.timer t { s.timer t with activated := true } ∧
      s'.tick = s.tick ∧ s'.insertions = s.insertions + 1 ∧
      s'.inserted = update s.inserted t s.insertions := by
  obtain ⟨heads, hheads, hs⟩ := bind_eq_some_iff.1 hs
  have heads_eq := (rowHeads_eq h (s.softList t) (s.timer t).timeoutTick fuel (i := 0)
    (n := skipListLevel) (by omega)).1 heads hheads
  obtain ⟨m, hm⟩ : ∃ m, skipListLevel = m + 1 :=
    ⟨skipListLevel - 1, by have := skipListLevel_pos; omega⟩
  rw [heads_eq, ← range_eq_range', ← map_reverse, hm, List.range_succ,
    reverse_append, reverse_singleton, singleton_append, map_cons] at hs
  cases hs
  obtain ⟨k, hk, heq⟩ := insertUpper_eq t
    (fun j => lastEntry (s.softList t) (s.placeOf rows (s.softList t) (s.timer t).timeoutTick j).1)
    m (s.randomNr + 1) (insertRow t m (lastEntry (s.softList t)
      (s.placeOf rows (s.softList t) (s.timer t).timeoutTick m).1) s.row)
  refine ⟨k, by omega, ?_, rfl, rfl, rfl, rfl⟩
  intro i hi
  show insertUpper t _ _ _ i = _
  rw [heq]
  by_cases him : i = m
  · subst him
    simp [insertRow, hk]
  · have hlt : i < m := by omega
    simp [insertRow, him, hlt]

theorem softList_modifyTimer {f : Timer → Timer} (hf : (f (s.timer t)).soft = (s.timer t).soft) :
    (s.modifyTimer t f).softList = s.softList := by
  funext u
  by_cases hu : u = t
  · subst hu
    simp [softList, modifyTimer, hf]
  · simp [softList, modifyTimer, hu]

/-- **The insertion** of a timer that is in no row. -/
theorem Rep.startInsert (h : Rep s rows) (ht : s.Unlinked t) {fuel : ℕ}
    (hs : s.startInsert fuel t = some s') :
    ∃ k ≤ skipListLevel - 1, Rep s' (s.insertRows rows t k) := by
  obtain ⟨k, hk, hrow, htimer, -⟩ := row_startInsert h hs
  have hsoft : s'.softList = s.softList := by
    funext u
    by_cases hu : u = t
    · subst hu
      simp [softList, htimer]
    · simp [softList, htimer, hu]
  refine ⟨k, hk, ?_, ?_⟩
  · intro i hi
    rw [hrow i hi, hsoft]
    have hnot : t ∉ rows (s.softList t) i := (h.row i hi).alone_iff.1 (ht i hi)
    have hplace := h.placeIn (s.softList t) (s.timer t).timeoutTick hi
    split
    · -- a row of the timer
      next hki =>
      have hnew := (h.row i hi).insert hnot hplace.append.symm
      have heq : (fun soft => s.insertRows rows t k soft i) =
          update (fun soft => rows soft i) (s.softList t)
            ((s.placeOf rows (s.softList t) (s.timer t).timeoutTick i).1 ++ t ::
              (s.placeOf rows (s.softList t) (s.timer t).timeoutTick i).2) := by
        funext soft
        by_cases hs : soft = s.softList t
        · subst hs
          simp [insertRows, hki]
        · simp [insertRows, hs]
      rw [heq]
      exact hnew
    · -- a row above
      next hki =>
      have heq : (fun soft => s.insertRows rows t k soft i) = fun soft => rows soft i := by
        funext soft
        simp [insertRows, hki]
      rw [heq]
      exact h.row i hi
  · intro soft i hi
    by_cases hs : soft = s.softList t
    · subst hs
      obtain ⟨hbefore, hafter⟩ := place_sublist
        (p := fun u => !s.stops (s.timer t).timeoutTick u) (h.sublist (s.softList t))
        (fun _ hj => h.nodup (s.softList t) hj) hi
      by_cases hki : k ≤ i
      · simp only [insertRows, hki, le_succ_of_le hki, and_self, if_true]
        exact hbefore.append (hafter.cons_cons t)
      · by_cases hki' : k ≤ i + 1
        · -- the timer is in the lower row only
          have hplace := h.placeIn (s.softList t) (s.timer t).timeoutTick hi
          have hrows := h.sublist (s.softList t) i hi
          rw [← hplace.append] at hrows
          simp only [insertRows, hki, hki', and_self, and_false, if_true, if_false]
          exact hrows.trans ((List.Sublist.refl _).append (sublist_cons_self ..))
        · simp only [insertRows, hki, hki', and_false, if_false]
          exact h.sublist (s.softList t) i hi
    · simp only [insertRows, hs, false_and, if_false]
      exact h.sublist soft i hi

theorem isSome_startInsert (h : Rep s rows) {fuel : ℕ}
    (hfuel : (bottom rows (s.softList t)).length < fuel) : (s.startInsert fuel t).isSome = true := by
  have hsome := (rowHeads_eq h (s.softList t) (s.timer t).timeoutTick fuel (i := 0)
    (n := skipListLevel) (by omega)).2 fun j hj =>
      ((h.sublist_bottom (s.softList t) hj).length_le).trans_lt hfuel
  obtain ⟨heads, hheads⟩ := isSome_iff_exists.1 hsome
  have heads_eq := (rowHeads_eq h (s.softList t) (s.timer t).timeoutTick fuel (i := 0)
    (n := skipListLevel) (by omega)).1 heads hheads
  have hne : heads.reverse ≠ [] := by
    rw [heads_eq]
    have hpos := skipListLevel_pos
    simp
    omega
  obtain ⟨⟨i, e⟩, upper, hupper⟩ := exists_cons_of_ne_nil hne
  have hheads' : s.rowHeads (s.softList t) (s.timer t).timeoutTick fuel skipListLevel 0
      (.head (s.softList t)) = some heads := hheads
  rw [Timers.startInsert, hheads', bind_some, hupper]
  rfl

/-! ### The functions -/

section

variable (h : Rep s rows)
include h

theorem Rep.modifyTimer {f : Timer → Timer}
    (hf : (f (s.timer t)).soft = (s.timer t).soft) : Rep (s.modifyTimer t f) rows :=
  h.congr rfl (softList_modifyTimer hf)

theorem Rep.clearActivated (t : Tm) : Rep (s.clearActivated t) rows :=
  h.modifyTimer (t := t) (f := fun timer => { timer with activated := false }) rfl

theorem Rep.setTime (t : Tm) (time : UInt32) : Rep (s.setTime t time) rows :=
  h.modifyTimer (t := t) (f := fun timer => { timer with initTick := time }) rfl

theorem Rep.setPeriodic (t : Tm) (periodic : Bool) : Rep (s.setPeriodic t periodic) rows :=
  h.modifyTimer (t := t) (f := fun timer => { timer with periodic := periodic }) rfl

theorem Rep.startRemove (t : Tm) :
    Rep (s.startRemove t) fun soft i => (rows soft i).filter (· ≠ t) :=
  (h.timerRemove t).clearActivated t

theorem Rep.startDeadline (hs : s.startDeadline t = some s') : Rep s' rows := by
  simp only [Timers.startDeadline, ite_none_right_eq_some, some.injEq] at hs
  obtain ⟨-, rfl⟩ := hs
  exact h.modifyTimer rfl

end

theorem unlinked_startDeadline (h : s.Unlinked t) (hs : s.startDeadline u = some s') :
    s'.Unlinked t := by
  simp only [Timers.startDeadline, ite_none_right_eq_some, some.injEq] at hs
  obtain ⟨-, rfl⟩ := hs
  exact h

theorem Rep.rtTimerStop (h : Rep s rows) (t : Tm) :
    Rep (s.rtTimerStop t).1 fun soft i =>
      if (s.timer t).activated then (rows soft i).filter (· ≠ t) else rows soft i := by
  rw [Timers.rtTimerStop]
  split
  · exact h.startRemove t
  · exact h

theorem Rep.firstTimer (h : Rep s rows) : s.firstTimer = (bottom rows false).head? := by
  have hnext := ((h.row _ lastRow_lt).ring false).path.next_start
  rw [Timers.firstTimer, hnext, bottom]
  cases rows false (skipListLevel - 1) <;> rfl

/-- What `rt_timer_start` does: `t` gets its deadline and stands in its list where the search
for this deadline ends. -/
structure Started (s s' : Timers Tm) (rows rows' : Bool → ℕ → List Tm) (t : Tm) : Prop where
  rep : Rep s' rows'
  initTick_lt : (s.timer t).initTick < halfTickMax
  timer : s'.timer = update s.timer t
    { s.timer t with timeoutTick := s.tick + (s.timer t).initTick, activated := true }
  tick : s'.tick = s.tick
  insertions : s'.insertions = s.insertions + 1
  inserted : s'.inserted = update s.inserted t s.insertions
  place : ∃ c, PlaceIn (fun u => !s'.stops (s.tick + (s.timer t).initTick) u)
      ((bottom rows (s.softList t)).filter (· ≠ t)) c ∧
    bottom rows' (s.softList t) = c.1 ++ t :: c.2
  other : ∀ soft, soft ≠ s.softList t → bottom rows' soft = (bottom rows soft).filter (· ≠ t)

theorem Rep.rtTimerStart (h : Rep s rows) {fuel : ℕ} (hs : s.rtTimerStart fuel t = some s') :
    ∃ rows', Started s s' rows rows' t := by
  obtain ⟨s₁, hs₁, hs⟩ := bind_eq_some_iff.1 hs
  have hrep := (h.startRemove t).startDeadline hs₁
  obtain ⟨k, hk, hrep'⟩ := hrep.startInsert
    (unlinked_startDeadline (s := s.startRemove t) (unlinked_timerRemove s t) hs₁) hs
  obtain ⟨_, -, -, htimer, htick, hinsertions, hinserted⟩ := row_startInsert hrep hs
  simp only [Timers.startDeadline, ite_none_right_eq_some, some.injEq] at hs₁
  obtain ⟨hlt, hs₁⟩ := hs₁
  -- the first section leaves the timer as it was, but for the deadline and the flag
  have hinit : ((s.startRemove t).timer t).initTick = (s.timer t).initTick := by
    simp [Timers.startRemove, Timers.timerRemove, Timers.clearActivated, Timers.modifyTimer]
  have htimer₁ : s₁.timer = update s.timer t
      { s.timer t with timeoutTick := s.tick + (s.timer t).initTick, activated := false } := by
    rw [← hs₁]
    simp [Timers.startRemove, Timers.timerRemove, Timers.clearActivated, Timers.modifyTimer]
  have hsoft : s₁.softList = s.softList := by
    rw [← hs₁, softList_modifyTimer rfl, Timers.startRemove, Timers.clearActivated,
      softList_modifyTimer rfl]
    rfl
  have hstops : ∀ deadline, s₁.stops deadline = s'.stops deadline := by
    intro deadline
    funext u
    by_cases hu : u = t
    · subst hu
      simp [stops, htimer]
    · simp [stops, htimer, hu]
  have hdeadline : (s₁.timer t).timeoutTick = s.tick + (s.timer t).initTick := by
    rw [htimer₁, update_self]
  refine ⟨_, hrep', hinit ▸ hlt, ?_, ?_, ?_, ?_, ?_, ?_⟩
  · rw [htimer, htimer₁]
    simp
  · rw [htick, ← hs₁]
    rfl
  · rw [hinsertions, ← hs₁]
    rfl
  · rw [hinserted, ← hs₁]
    rfl
  · refine ⟨s₁.placeOf (fun soft i => (rows soft i).filter (· ≠ t)) (s₁.softList t)
      (s₁.timer t).timeoutTick (skipListLevel - 1), ?_, ?_⟩
    · have hplace := hrep.placeIn (s₁.softList t) (s₁.timer t).timeoutTick lastRow_lt
      rw [hstops, hdeadline] at hplace
      rw [hdeadline]
      rw [hsoft] at hplace ⊢
      exact hplace
    · rw [bottom, insertRows, if_pos ⟨by rw [hsoft], hk⟩, hsoft]
  · intro soft hne
    rw [bottom, insertRows, if_neg fun hboth => hne (by rw [hboth.1, hsoft])]
    rfl

theorem Started.mem_bottom {rows' : Bool → ℕ → List Tm} {soft : Bool}
    (h : Started s s' rows rows' t) :
    u ∈ bottom rows' soft ↔ u = t ∧ soft = s.softList t ∨ u ≠ t ∧ u ∈ bottom rows soft := by
  by_cases hsoft : soft = s.softList t
  · subst hsoft
    obtain ⟨c, hc, hbottom⟩ := h.place
    have hmem : u ∈ c.1 ++ c.2 ↔ u ∈ bottom rows (s.softList t) ∧ u ≠ t := by
      rw [hc.append]
      simp
    rw [mem_append] at hmem
    rw [hbottom, mem_append, mem_cons]
    grind
  · rw [h.other soft hsoft, mem_filter]
    simp [hsoft]
    grind

theorem Started.softList (h : Started s s' rows rows' t) : s'.softList = s.softList := by
  funext u
  by_cases hu : u = t
  · subst hu
    simp [Timers.softList, h.timer]
  · simp [Timers.softList, h.timer, hu]

theorem isSome_rtTimerStart (h : Rep s rows) (ht : (s.timer t).initTick < halfTickMax) {fuel : ℕ}
    (hfuel : (bottom rows (s.softList t)).length < fuel) :
    (s.rtTimerStart fuel t).isSome = true := by
  have hinit : ((s.startRemove t).timer t).initTick = (s.timer t).initTick := by
    simp [Timers.startRemove, Timers.timerRemove, Timers.clearActivated, Timers.modifyTimer]
  have hsome : ((s.startRemove t).startDeadline t).isSome = true := by
    rw [Timers.startDeadline, if_pos (hinit ▸ ht)]
    rfl
  obtain ⟨s₁, hs₁⟩ := isSome_iff_exists.1 hsome
  have hrep := (h.startRemove t).startDeadline hs₁
  rw [Timers.rtTimerStart, hs₁, bind_some]
  apply isSome_startInsert hrep
  have hsoft : s₁.softList = s.softList := by
    simp only [Timers.startDeadline, ite_none_right_eq_some, some.injEq] at hs₁
    obtain ⟨-, rfl⟩ := hs₁
    rw [softList_modifyTimer rfl, Timers.startRemove, Timers.clearActivated,
      softList_modifyTimer rfl]
    rfl
  rw [hsoft]
  exact (filter_sublist.length_le).trans_lt hfuel

theorem rep_init (timer : Tm → Timer) (randomNr tick : UInt32) :
    Rep (.init timer randomNr tick) fun _ _ => [] :=
  ⟨fun _ _ => ⟨fun _ => ⟨⟨rfl, rfl⟩, nodup_singleton _⟩, fun _ _ => ⟨rfl, rfl⟩, nofun⟩,
    fun _ _ _ => List.Sublist.refl _⟩

end Timers

end RtThread
