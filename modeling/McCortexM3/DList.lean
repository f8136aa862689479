import Mathlib.Data.List.Nodup

/-!
# Circular doubly linked lists

A list is a head node and the nodes that the next pointers visit on the way back to it; the
prev pointers lead back.  A node in no list points to itself.

## Main definitions

* `Links`, `insertAfter`, `insertBefore`, `remove` — the pointers, and the operations.
* `Circular s h l` — the list with head `h` has the nodes `l`.
* `Looped s l` — the list has the nodes `l`, any of which may be its head.
* `Alone` — a node in no list.
* `Rings s head node L` — a family of lists that have no node in common.

## Main results

* `Circular.remove`, `Circular.insertAfter` — what the operations do to a list.
* `Circular.congr` — and to the others.
* `Looped.remove`, `Looped.insertAfter`, `Looped.next_eq` — the same for the nodes of a loop.
* `Rings.remove`, `Rings.insertBefore` — and for a family.
-/

set_option linter.all false

variable {α : Type*}

/-- The next and prev pointers of the nodes. -/
structure Links (α : Type*) where
  next : α → α
  prev : α → α

namespace Links

open Function List

variable [DecidableEq α]

/-- Every node is in no list. -/
def init : Links α := ⟨id, id⟩

/-- `a->next = b`. -/
def setNext (s : Links α) (a b : α) : Links α := { s with next := Function.update s.next a b }

/-- `a->prev = b`. -/
def setPrev (s : Links α) (a b : α) : Links α := { s with prev := Function.update s.prev a b }

/-- `n` is inserted after `l`, the four pointers being written one after the other. -/
def insertAfter (s : Links α) (l n : α) : Links α :=
  let s := s.setPrev (s.next l) n
  let s := s.setNext n (s.next l)
  let s := s.setNext l n
  s.setPrev n l

/-- `n` is inserted before `l`. -/
def insertBefore (s : Links α) (l n : α) : Links α :=
  let s := s.setNext (s.prev l) n
  let s := s.setPrev n (s.prev l)
  let s := s.setPrev l n
  s.setNext n l

/-- `n` is removed from its list, and points to itself. -/
def remove (s : Links α) (n : α) : Links α :=
  let s := s.setPrev (s.next n) (s.prev n)
  let s := s.setNext (s.prev n) (s.next n)
  (s.setPrev n n).setNext n n

/-- A node in no list. -/
def Alone (s : Links α) (n : α) : Prop := s.next n = n ∧ s.prev n = n

instance (s : Links α) (n : α) : Decidable (s.Alone n) := inferInstanceAs (Decidable (_ ∧ _))

theorem Alone.remove_eq {s : Links α} {n : α} (h : s.Alone n) : s.remove n = s := by
  obtain ⟨hnext, hprev⟩ := h
  have h₁ : s.setPrev n n = s := by
    rw [setPrev, update_eq_self_iff.2 hprev.symm]
  have h₂ : s.setNext n n = s := by
    rw [setNext, update_eq_self_iff.2 hnext.symm]
  simp only [remove, hnext, hprev, h₁, h₂]

/-! ### Paths -/

omit [DecidableEq α] in
/-- The last of the nodes `a :: l`. -/
def lastFrom (a : α) : List α → α
  | [] => a
  | b :: l => lastFrom b l

omit [DecidableEq α] in
theorem lastFrom_mem (a : α) (l : List α) : lastFrom a l ∈ a :: l := by
  induction l generalizing a with
  | nil => exact mem_cons_self
  | cons b l ih => exact mem_cons_of_mem a (ih b)

omit [DecidableEq α] in
theorem lastFrom_append (a : α) (l₁ l₂ : List α) :
    lastFrom a (l₁ ++ l₂) = lastFrom (lastFrom a l₁) l₂ := by
  induction l₁ generalizing a with
  | nil => rfl
  | cons b l ih => exact ih b

omit [DecidableEq α] in
/-- The pointers lead from `a` through `l` to `b`, and back. -/
def Path (s : Links α) : α → List α → α → Prop
  | a, [], b => s.next a = b ∧ s.prev b = a
  | a, n :: l, b => (s.next a = n ∧ s.prev n = a) ∧ Path s n l b

variable {s s' : Links α} {a b h l₀ n : α} {l l₁ l₂ : List α}

omit [DecidableEq α] in
theorem path_append : Path s a (l₁ ++ n :: l₂) b ↔ Path s a l₁ n ∧ Path s n l₂ b := by
  induction l₁ generalizing a with
  | nil => rfl
  | cons c l ih => simp only [cons_append, Path, ih, and_assoc]

omit [DecidableEq α] in
theorem Path.congr (hp : Path s a l b) (hnext : ∀ m ∈ a :: l, s'.next m = s.next m)
    (hprev : ∀ m ∈ l ++ [b], s'.prev m = s.prev m) : Path s' a l b := by
  induction l generalizing a with
  | nil =>
    rw [Path, hnext a mem_cons_self, hprev b mem_cons_self]
    exact hp
  | cons c l ih =>
    refine ⟨?_, ih hp.2 (fun m hm => hnext m (mem_cons_of_mem a hm)) fun m hm =>
      hprev m (mem_cons_of_mem c hm)⟩
    rw [hnext a mem_cons_self, hprev c mem_cons_self]
    exact hp.1

omit [DecidableEq α] in
theorem Path.prev_eq (hp : Path s a l b) : s.prev b = lastFrom a l := by
  induction l generalizing a with
  | nil => exact hp.2
  | cons c l ih => exact ih hp.2

omit [DecidableEq α] in
theorem Path.next_start (hp : Path s a l b) : s.next a = l.headD b := by
  cases l with
  | nil => exact hp.1
  | cons c l => exact hp.1.1

omit [DecidableEq α] in
theorem Path.next_lastFrom (hp : Path s a (l₁ ++ l₂) b) : s.next (lastFrom a l₁) = l₂.headD b := by
  induction l₁ generalizing a with
  | nil => exact hp.next_start
  | cons c l ih => exact ih hp.2

omit [DecidableEq α] in
theorem headD_mem (l : List α) (b : α) : l.headD b ∈ l ++ [b] := by
  cases l <;> simp

/-! ### The pointers after an operation -/

theorem next_remove (s : Links α) (n m : α) : (s.remove n).next m =
    if m = n then n else if m = s.prev n then s.next n else s.next m := by
  by_cases hq : n = s.next n
  · simp [Links.remove, setNext, setPrev, update_apply, ← hq]
  · simp [Links.remove, setNext, setPrev, update_apply, hq]

theorem prev_remove (s : Links α) (n m : α) : (s.remove n).prev m =
    if m = n then n else if m = s.next n then s.prev n else s.prev m := by
  simp [Links.remove, setNext, setPrev, update_apply]

theorem next_insertAfter (s : Links α) (a n m : α) : (s.insertAfter a n).next m =
    if m = a then n else if m = n then s.next a else s.next m := by
  simp [Links.insertAfter, setNext, setPrev, update_apply]

theorem prev_insertAfter (s : Links α) (a n m : α) : (s.insertAfter a n).prev m =
    if m = n then a else if m = s.next a then n else s.prev m := by
  simp [Links.insertAfter, setNext, setPrev, update_apply]

theorem insertBefore_eq (hl : s.next (s.prev l₀) = l₀) (hn : n ≠ l₀) (hp : n ≠ s.prev l₀) :
    s.insertBefore l₀ n = s.insertAfter (s.prev l₀) n := by
  have hnext : (s.insertBefore l₀ n).next = (s.insertAfter (s.prev l₀) n).next := by
    funext m
    rw [next_insertAfter, hl]
    simp only [insertBefore, setNext, setPrev, update_apply]
    split
    · next hm => rw [if_neg (hm ▸ hp)]
    · rfl
  have hprev : (s.insertBefore l₀ n).prev = (s.insertAfter (s.prev l₀) n).prev := by
    funext m
    rw [prev_insertAfter, hl]
    simp only [insertBefore, setNext, setPrev, update_apply]
    split
    · next hm => rw [if_neg (by rw [hm]; exact hn.symm)]
    · rfl
  exact congrArg₂ Links.mk hnext hprev

theorem alone_remove (s : Links α) (n : α) : (s.remove n).Alone n := by
  simp [Alone, next_remove, prev_remove]

theorem Path.remove_rest (hp₁ : Path s a l₁ n) (hp₂ : Path s n l₂ b)
    (hnodup : (n :: l₂).Nodup) (hb : b ∉ n :: l₂) (ha : lastFrom a l₁ ∉ n :: l₂) :
    Path (s.remove n) (lastFrom a l₁) l₂ b := by
  obtain ⟨p, hp⟩ : ∃ p, p = lastFrom a l₁ := ⟨_, rfl⟩
  have hprev : s.prev n = p := by rw [hp₁.prev_eq, hp]
  rw [← hp] at ha ⊢
  have hpn : p ≠ n := by
    rintro rfl
    exact ha mem_cons_self
  have hbn : b ≠ n := by
    rintro rfl
    exact hb mem_cons_self
  cases l₂ with
  | nil =>
    rw [Path, next_remove, prev_remove, if_neg hpn, if_pos hprev.symm, if_neg hbn,
      if_pos hp₂.1.symm]
    exact ⟨hp₂.1, hprev⟩
  | cons c l =>
    obtain ⟨⟨hnc, hcn⟩, hrest⟩ := hp₂
    obtain ⟨hn, hcl⟩ := nodup_cons.1 hnodup
    have hcn' : c ≠ n := by
      rintro rfl
      exact hn mem_cons_self
    -- only the successor of `p` and the predecessor of `c` have changed
    refine ⟨?_, hrest.congr ?_ ?_⟩
    · rw [next_remove, prev_remove, if_neg hpn, if_pos hprev.symm, if_neg hcn', if_pos hnc.symm]
      exact ⟨hnc, hprev⟩
    · intro m hm
      have hmn : m ≠ n := by
        rintro rfl
        exact hn hm
      have hmp : m ≠ p := by
        rintro rfl
        exact ha (mem_cons_of_mem n hm)
      rw [next_remove, if_neg hmn, hprev, if_neg hmp]
    · intro m hm
      have hm' : m ≠ n ∧ m ≠ c := by
        rcases mem_append.1 hm with hm | hm
        · refine ⟨?_, ?_⟩
          · rintro rfl
            exact hn (mem_cons_of_mem c hm)
          · rintro rfl
            exact (nodup_cons.1 hcl).1 hm
        · obtain rfl : m = b := by simpa using hm
          refine ⟨hbn, ?_⟩
          rintro rfl
          exact hb (by simp)
      rw [prev_remove, if_neg hm'.1, hnc, if_neg hm'.2]

theorem Path.remove (hp₁ : Path s a l₁ n) (hp₂ : Path s n l₂ b)
    (hnodup : (l₁ ++ n :: l₂).Nodup) (ha : a ∉ l₁ ++ n :: l₂) (hb : b ∉ l₁ ++ n :: l₂) :
    Path (s.remove n) a (l₁ ++ l₂) b := by
  induction l₁ generalizing a with
  | nil =>
    have hremoved : Path (s.remove n) (lastFrom a []) l₂ b :=
      Path.remove_rest hp₁ hp₂ hnodup hb ha
    exact hremoved
  | cons c l ih =>
    obtain ⟨⟨hac, hca⟩, hp₁⟩ := hp₁
    obtain ⟨hc, hnodup'⟩ := nodup_cons.1 hnodup
    refine ⟨?_, ih hp₁ hnodup' hc fun hm => hb (mem_cons_of_mem c hm)⟩
    -- `a` is not before `n`, and `c` not after it
    have han : a ≠ n := by
      rintro rfl
      exact ha (by simp)
    have hcn : c ≠ n := by
      rintro rfl
      exact hc (by simp)
    have hap : a ≠ s.prev n := by
      rw [hp₁.prev_eq]
      intro he
      have hmem := lastFrom_mem c l
      rw [← he] at hmem
      exact ha (mem_append_left _ hmem)
    have hcq : c ≠ s.next n := by
      rw [hp₂.next_start]
      intro he
      have hmem := headD_mem l₂ b
      rw [← he] at hmem
      rcases mem_append.1 hmem with hm | hm
      · exact hc (by simp [hm])
      · obtain rfl : c = b := by simpa using hm
        exact hb mem_cons_self
    rw [next_remove, prev_remove, if_neg han, if_neg hap, if_neg hcn, if_neg hcq]
    exact ⟨hac, hca⟩

theorem Path.insertAfter (hp : Path s a (l₁ ++ l₂) b) (hnodup : (l₁ ++ l₂).Nodup)
    (ha : a ∉ l₁ ++ l₂) (hb : b ∉ l₁ ++ l₂) (hn : n ∉ a :: (l₁ ++ l₂)) (hbn : b ≠ n) :
    Path (s.insertAfter (lastFrom a l₁) n) a (l₁ ++ n :: l₂) b := by
  induction l₁ generalizing a with
  | nil =>
    -- the node stands between `a` and its old successor
    have han : a ≠ n := by
      rintro rfl
      exact hn mem_cons_self
    have hq := hp.next_start
    cases l₂ with
    | nil =>
      simp only [nil_append, lastFrom, Path, next_insertAfter, prev_insertAfter]
      simp [hbn, Ne.symm han, hp.1]
    | cons c l =>
      obtain ⟨⟨hac, hca⟩, hrest⟩ := hp
      have hcn : c ≠ n := by
        rintro rfl
        exact hn (by simp)
      refine ⟨?_, ?_, hrest.congr ?_ ?_⟩
      · simp [lastFrom, next_insertAfter, prev_insertAfter]
      · simp [lastFrom, next_insertAfter, prev_insertAfter, Ne.symm han, hac, hcn]
      · intro m hm
        have hma : m ≠ a := by
          rintro rfl
          exact ha hm
        have hmn : m ≠ n := by
          rintro rfl
          exact hn (mem_cons_of_mem a hm)
        rw [lastFrom, next_insertAfter, if_neg hma, if_neg hmn]
      · intro m hm
        have hm' : m ≠ n ∧ m ≠ c := by
          rcases mem_append.1 hm with hm | hm
          · refine ⟨?_, ?_⟩
            · rintro rfl
              exact hn (by simp [hm])
            · rintro rfl
              exact (nodup_cons.1 hnodup).1 hm
          · obtain rfl : m = b := by simpa using hm
            refine ⟨hbn, ?_⟩
            rintro rfl
            exact hb (by simp)
        rw [lastFrom, prev_insertAfter, if_neg hm'.1, hac, if_neg hm'.2]
  | cons c l ih =>
    obtain ⟨⟨hac, hca⟩, hp⟩ := hp
    obtain ⟨hc, hnodup'⟩ := nodup_cons.1 hnodup
    refine ⟨?_, ih hp hnodup' hc (fun hm => hb (mem_cons_of_mem c hm))
      fun hm => hn (mem_cons_of_mem a hm)⟩
    -- the step from `a` to `c` stays
    have han : a ≠ n := by
      rintro rfl
      exact hn mem_cons_self
    have hcn : c ≠ n := by
      rintro rfl
      exact hn (by simp)
    have hap : a ≠ lastFrom c l := by
      intro he
      have hmem := lastFrom_mem c l
      rw [← he] at hmem
      exact ha (mem_append_left _ hmem)
    have hcq : c ≠ s.next (lastFrom c l) := by
      rw [hp.next_lastFrom]
      intro he
      have hmem := headD_mem l₂ b
      rw [← he] at hmem
      rcases mem_append.1 hmem with hm | hm
      · exact hc (by simp [hm])
      · obtain rfl : c = b := by simpa using hm
        exact hb mem_cons_self
    rw [lastFrom, next_insertAfter, prev_insertAfter, if_neg hap, if_neg han, if_neg hcn,
      if_neg hcq]
    exact ⟨hac, hca⟩

end Links

/-! ### Lists -/

/-- The list with head `h` has the nodes `l`, each once. -/
structure Circular (s : Links α) (h : α) (l : List α) : Prop where
  path : s.Path h l h
  nodup : (h :: l).Nodup

namespace Circular

variable {s s' : Links α} {h n m : α} {l l₁ l₂ : List α}

theorem congr (hr : Circular s h l)
    (hs : ∀ m ∈ h :: l, s'.next m = s.next m ∧ s'.prev m = s.prev m) : Circular s' h l := by
  refine ⟨hr.path.congr (fun m hm => (hs m hm).1) fun m hm => (hs m ?_).2, hr.nodup⟩
  rcases List.mem_append.1 hm with hm | hm
  · exact List.mem_cons_of_mem h hm
  · rw [List.mem_singleton.1 hm]
    exact List.mem_cons_self

theorem next_mem (hr : Circular s h l) (hn : n ∈ h :: l) : s.next n ∈ h :: l := by
  rcases List.mem_cons.1 hn with rfl | hn
  · rw [hr.path.next_start]
    rcases List.mem_append.1 (Links.headD_mem l n) with hm | hm
    · exact List.mem_cons_of_mem n hm
    · rw [List.mem_singleton.1 hm]
      exact List.mem_cons_self
  · obtain ⟨l₁, l₂, rfl⟩ := List.append_of_mem hn
    rw [(Links.path_append.1 hr.path).2.next_start]
    rcases List.mem_append.1 (Links.headD_mem l₂ h) with hm | hm
    · exact List.mem_cons_of_mem h (List.mem_append_right l₁ (List.mem_cons_of_mem n hm))
    · rw [List.mem_singleton.1 hm]
      exact List.mem_cons_self

theorem prev_mem (hr : Circular s h l) (hn : n ∈ h :: l) : s.prev n ∈ h :: l := by
  rcases List.mem_cons.1 hn with rfl | hn
  · rw [hr.path.prev_eq]
    exact Links.lastFrom_mem n l
  · obtain ⟨l₁, l₂, rfl⟩ := List.append_of_mem hn
    rw [(Links.path_append.1 hr.path).1.prev_eq]
    have hmem := Links.lastFrom_mem h l₁
    rcases List.mem_cons.1 hmem with he | hmem
    · rw [he]
      exact List.mem_cons_self
    · simp [hmem]

theorem next_ne (hr : Circular s h (l₁ ++ n :: l₂)) : s.next n ≠ n := by
  obtain ⟨hh, hnodup⟩ := List.nodup_cons.1 hr.nodup
  rw [(Links.path_append.1 hr.path).2.next_start]
  cases l₂ with
  | nil =>
    rintro rfl
    exact hh (by simp)
  | cons m l₂ =>
    rintro rfl
    have hrest : (m :: m :: l₂).Nodup := hnodup.of_append_right
    exact (List.nodup_cons.1 hrest).1 List.mem_cons_self

theorem remove_notMem (hr : Circular s h (l₁ ++ n :: l₂)) : n ∉ h :: (l₁ ++ l₂) := by
  have hperm : (h :: (l₁ ++ n :: l₂)).Perm (n :: h :: (l₁ ++ l₂)) :=
    (List.perm_middle.cons h).trans (List.Perm.swap n h _)
  exact (List.nodup_cons.1 (hperm.nodup_iff.1 hr.nodup)).1

variable [DecidableEq α]

theorem remove (hr : Circular s h (l₁ ++ n :: l₂)) : Circular (s.remove n) h (l₁ ++ l₂) := by
  obtain ⟨hh, hnodup⟩ := List.nodup_cons.1 hr.nodup
  obtain ⟨hp₁, hp₂⟩ := Links.path_append.1 hr.path
  refine ⟨hp₁.remove hp₂ hnodup hh hh, List.nodup_cons.2 ⟨fun hm => hh ?_, ?_⟩⟩
  · rcases List.mem_append.1 hm with hm | hm
    · exact List.mem_append_left _ hm
    · simp [hm]
  · exact hnodup.sublist ((List.Sublist.refl l₁).append (List.sublist_cons_self n l₂))

theorem remove_frame (hr : Circular s h l) (hn : n ∈ h :: l) (hm : m ∉ h :: l) :
    (s.remove n).next m = s.next m ∧ (s.remove n).prev m = s.prev m := by
  have hmn : m ≠ n := by
    rintro rfl
    exact hm hn
  have hmp : m ≠ s.prev n := by
    rintro rfl
    exact hm (hr.prev_mem hn)
  have hmq : m ≠ s.next n := by
    rintro rfl
    exact hm (hr.next_mem hn)
  rw [Links.next_remove, Links.prev_remove, if_neg hmn, if_neg hmp, if_neg hmn, if_neg hmq]
  exact ⟨rfl, rfl⟩

theorem insertAfter (hr : Circular s h (l₁ ++ l₂)) (hn : n ∉ h :: (l₁ ++ l₂)) :
    Circular (s.insertAfter (Links.lastFrom h l₁) n) h (l₁ ++ n :: l₂) := by
  obtain ⟨hh, hnodup⟩ := List.nodup_cons.1 hr.nodup
  have hhn : h ≠ n := by
    rintro rfl
    exact hn List.mem_cons_self
  have hnl : n ∉ l₁ ++ l₂ := fun hm => hn (List.mem_cons_of_mem h hm)
  refine ⟨hr.path.insertAfter hnodup hh hh hn hhn, List.nodup_cons.2 ⟨?_, ?_⟩⟩
  · intro hm
    rcases List.mem_append.1 hm with hm | hm
    · exact hh (List.mem_append_left _ hm)
    · rcases List.mem_cons.1 hm with rfl | hm
      · exact hhn rfl
      · exact hh (List.mem_append_right _ hm)
  · exact (List.perm_middle.nodup_iff).2 (List.nodup_cons.2 ⟨hnl, hnodup⟩)

theorem insertAfter_frame {a : α} (hr : Circular s h l) (ha : a ∈ h :: l) (hm : m ∉ h :: l)
    (hmn : m ≠ n) :
    (s.insertAfter a n).next m = s.next m ∧ (s.insertAfter a n).prev m = s.prev m := by
  have hma : m ≠ a := by
    rintro rfl
    exact hm ha
  have hmq : m ≠ s.next a := by
    rintro rfl
    exact hm (hr.next_mem ha)
  rw [Links.next_insertAfter, Links.prev_insertAfter, if_neg hma, if_neg hmn, if_neg hmn,
    if_neg hmq]
  exact ⟨rfl, rfl⟩

theorem insertBefore_eq (hr : Circular s h l) (hn : n ∉ h :: l) :
    s.insertBefore h n = s.insertAfter (Links.lastFrom h l) n := by
  have hlast := hr.path.prev_eq
  have hnext : s.next (s.prev h) = h := by
    have hpath : s.Path h (l ++ []) h := by simpa using hr.path
    rw [hlast, hpath.next_lastFrom]
    rfl
  rw [Links.insertBefore_eq hnext, hlast]
  · rintro rfl
    exact hn List.mem_cons_self
  · rintro rfl
    exact hn (hr.prev_mem List.mem_cons_self)

theorem insertBefore (hr : Circular s h l) (hn : n ∉ h :: l) :
    Circular (s.insertBefore h n) h (l ++ [n]) := by
  have hr' : Circular s h (l ++ []) := by simpa using hr
  rw [hr.insertBefore_eq hn]
  exact hr'.insertAfter (by simpa using hn)

theorem insertBefore_frame (hr : Circular s h l) (hn : n ∉ h :: l) (hm : m ∉ h :: l)
    (hmn : m ≠ n) :
    (s.insertBefore h n).next m = s.next m ∧ (s.insertBefore h n).prev m = s.prev m := by
  rw [hr.insertBefore_eq hn]
  exact hr.insertAfter_frame (Links.lastFrom_mem h l) hm hmn

end Circular

/-! ### Loops -/

/-- The list has the nodes `l` in their order, the first one being the head. -/
def Looped (s : Links α) : List α → Prop
  | [] => False
  | h :: l => Circular s h l

namespace Looped

variable {s s' : Links α} {h a n m t : α} {l l₁ l₂ : List α}

theorem nodup (hr : Looped s l) : l.Nodup := by
  cases l with
  | nil => exact hr.elim
  | cons h l => exact Circular.nodup hr

theorem congr (hr : Looped s l) (hs : ∀ m ∈ l, s'.next m = s.next m ∧ s'.prev m = s.prev m) :
    Looped s' l := by
  cases l with
  | nil => exact hr.elim
  | cons h l => exact Circular.congr hr hs

theorem next_eq (hr : Looped s (l₁ ++ a :: n :: l₂)) : s.next a = n ∧ s.prev n = a := by
  cases l₁ with
  | nil => exact (Circular.path hr).1
  | cons h l₁ =>
    have hpath : s.Path h (l₁ ++ a :: n :: l₂) h := Circular.path hr
    exact (Links.path_append.1 hpath).2.1

theorem next_last (hr : Looped s (h :: (l ++ [t]))) : s.next t = h ∧ s.prev h = t := by
  have hpath : s.Path h (l ++ [t]) h := Circular.path hr
  exact (Links.path_append.1 hpath).2

variable [DecidableEq α]

theorem remove (hr : Looped s (l₁ ++ a :: n :: l₂)) : Looped (s.remove n) (l₁ ++ a :: l₂) := by
  cases l₁ with
  | nil =>
    have hr' : Circular s a ([] ++ n :: l₂) := hr
    exact hr'.remove
  | cons h l₁ =>
    have hr' : Circular s h (l₁ ++ a :: n :: l₂) := hr
    rw [List.append_cons] at hr'
    have hremoved := hr'.remove
    rw [List.append_assoc] at hremoved
    exact hremoved

theorem insertAfter (hr : Looped s (l₁ ++ a :: l₂)) (hn : n ∉ l₁ ++ a :: l₂) :
    Looped (s.insertAfter a n) (l₁ ++ a :: n :: l₂) := by
  cases l₁ with
  | nil =>
    have hr' : Circular s a ([] ++ l₂) := hr
    exact hr'.insertAfter hn
  | cons h l₁ =>
    have hr' : Circular s h (l₁ ++ a :: l₂) := hr
    rw [List.append_cons] at hr'
    have hinserted := hr'.insertAfter (n := n) (by simpa using hn)
    rw [Links.lastFrom_append, List.append_assoc] at hinserted
    exact hinserted

end Looped

/-! ### Families of lists -/

/-- The heads of a family of lists, and the other nodes. -/
structure Heads {κ ι : Type*} (head : κ → α) (node : ι → α) : Prop where
  head_injective : Function.Injective head
  node_injective : Function.Injective node
  ne : ∀ k i, head k ≠ node i

/-- The list of every head `head k` has the nodes of `L k`, and no node is in two of them. -/
structure Rings {κ ι : Type*} (s : Links α) (head : κ → α) (node : ι → α) (L : κ → List ι) :
    Prop where
  ring : ∀ k, Circular s (head k) ((L k).map node)
  apart : ∀ k k' i, i ∈ L k → i ∈ L k' → k = k'

namespace Rings

variable {κ ι : Type*} {s s' : Links α} {head : κ → α} {node : ι → α} {L : κ → List ι} {k k' : κ}
  {i j : ι} {m : α}

theorem nodup (hr : Rings s head node L) (k : κ) : (L k).Nodup :=
  (List.nodup_cons.1 (hr.ring k).nodup).2.of_map node

theorem next_head_iff (hd : Heads head node) (hr : Rings s head node L) :
    s.next (head k) = head k ↔ L k = [] := by
  rw [(hr.ring k).path.next_start]
  cases hL : L k with
  | nil => simp
  | cons i l => simp [(hd.ne k i).symm]

theorem next_head (hr : Rings s head node L) {l : List ι} (hL : L k = i :: l) :
    s.next (head k) = node i := by
  rw [(hr.ring k).path.next_start, hL]
  rfl

theorem notMem (hd : Heads head node) (hr : Rings s head node L) (hk : k' ≠ k)
    (hm : m ∈ head k' :: (L k').map node) : m ∉ head k :: (L k).map node := by
  intro hm'
  rcases List.mem_cons.1 hm with rfl | hm
  · rcases List.mem_cons.1 hm' with he | hm'
    · exact hk (hd.head_injective he)
    · obtain ⟨i, -, hi⟩ := List.mem_map.1 hm'
      exact hd.ne k' i hi.symm
  · obtain ⟨i, hi, rfl⟩ := List.mem_map.1 hm
    rcases List.mem_cons.1 hm' with he | hm'
    · exact hd.ne k i he.symm
    · obtain ⟨j, hj, hij⟩ := List.mem_map.1 hm'
      obtain rfl := hd.node_injective hij
      exact hk (hr.apart k' k j hi hj)

theorem node_notMem (hd : Heads head node) (hi : i ∉ L k) : node i ∉ head k :: (L k).map node := by
  intro hm
  rcases List.mem_cons.1 hm with he | hm
  · exact hd.ne k i he.symm
  · obtain ⟨j, hj, hij⟩ := List.mem_map.1 hm
    obtain rfl := hd.node_injective hij
    exact hi hj

variable [DecidableEq α] [DecidableEq κ] [DecidableEq ι]

theorem remove (hd : Heads head node) (hr : Rings s head node L) (hi : i ∈ L k) :
    Rings (s.remove (node i)) head node (Function.update L k ((L k).erase i)) := by
  refine ⟨fun k' => ?_, fun k₁ k₂ j h₁ h₂ => hr.apart k₁ k₂ j ?_ ?_⟩
  · rw [Function.update_apply]
    split
    · next hk =>
      subst hk
      obtain ⟨l₁, l₂, hnot, hL, herase⟩ := List.exists_erase_eq hi
      have hring := hr.ring k'
      rw [hL, List.map_append, List.map_cons] at hring
      rw [herase, List.map_append]
      exact hring.remove
    · next hk =>
      refine (hr.ring k').congr fun m hm => ?_
      exact (hr.ring k).remove_frame (List.mem_cons_of_mem _ (List.mem_map_of_mem hi))
        (hr.notMem hd hk hm)
  · rw [Function.update_apply] at h₁
    split at h₁
    · next hk => exact hk ▸ List.mem_of_mem_erase h₁
    · exact h₁
  · rw [Function.update_apply] at h₂
    split at h₂
    · next hk => exact hk ▸ List.mem_of_mem_erase h₂
    · exact h₂

omit [DecidableEq κ] [DecidableEq ι] in
theorem alone_remove (hd : Heads head node) (hr : Rings s head node L) (hi : i ∈ L k)
    (hj : j ∉ L k) (halone : s.Alone (node j)) : (s.remove (node i)).Alone (node j) := by
  obtain ⟨hnext, hprev⟩ := (hr.ring k).remove_frame
    (List.mem_cons_of_mem _ (List.mem_map_of_mem hi)) (node_notMem hd hj)
  exact ⟨hnext.trans halone.1, hprev.trans halone.2⟩

omit [DecidableEq ι] in
theorem insertBefore (hd : Heads head node) (hr : Rings s head node L) (hi : ∀ k, i ∉ L k) :
    Rings (s.insertBefore (head k) (node i)) head node (Function.update L k (L k ++ [i])) := by
  have hmem : ∀ {k' j}, j ∈ Function.update L k (L k ++ [i]) k' → j ∈ L k' ∨ k' = k ∧ j = i := by
    intro k' j hj
    rw [Function.update_apply] at hj
    split at hj
    · next hk =>
      subst hk
      exact (List.mem_append.1 hj).imp_right fun hj => ⟨rfl, List.mem_singleton.1 hj⟩
    · exact .inl hj
  refine ⟨fun k' => ?_, fun k₁ k₂ j h₁ h₂ => ?_⟩
  · rw [Function.update_apply]
    split
    · next hk =>
      subst hk
      rw [List.map_append]
      exact (hr.ring k').insertBefore (node_notMem hd (hi k'))
    · next hk =>
      refine (hr.ring k').congr fun m hm => ?_
      refine (hr.ring k).insertBefore_frame (node_notMem hd (hi k)) (hr.notMem hd hk hm) ?_
      rintro rfl
      exact node_notMem hd (hi k') hm
  · rcases hmem h₁ with hold₁ | ⟨rfl, rfl⟩
    · rcases hmem h₂ with hold₂ | ⟨-, rfl⟩
      · exact hr.apart k₁ k₂ j hold₁ hold₂
      · exact absurd hold₁ (hi k₁)
    · rcases hmem h₂ with hold₂ | ⟨rfl, -⟩
      · exact absurd hold₂ (hi k₂)
      · rfl

omit [DecidableEq κ] [DecidableEq ι] in
theorem alone_insertBefore (hd : Heads head node) (hr : Rings s head node L) (hi : i ∉ L k)
    (hj : j ∉ L k) (hji : j ≠ i) (halone : s.Alone (node j)) :
    (s.insertBefore (head k) (node i)).Alone (node j) := by
  obtain ⟨hnext, hprev⟩ := (hr.ring k).insertBefore_frame (node_notMem hd hi)
    (node_notMem hd hj) fun he => hji (hd.node_injective he)
  exact ⟨hnext.trans halone.1, hprev.trans halone.2⟩

end Rings
