import McCortexM3.Run

/-!
# The descriptor table

`fd_new`, `fd_get` and `fd_put` of `dfs.c`, and the calls of `dfs_posix.c` that use them.  Each of
the three functions holds the lock of the table; the calls of a driver, which are made without the
lock, may return anything.

A call of `close` gives back two references, the second one being that of the descriptor for being
open.  Two calls of `close` for one descriptor that overlap both give it back, and the last one does
this when the descriptor has been freed.

## Main definitions

* `FdTable` — the table, and the descriptors in memory.
* `fdNew`, `fdGet`, `fdPut` — the functions.
* `FdSys`, `step` — the calls that are in progress, and their sections.
* `holders` — who holds a descriptor.
* `ClosesOnce` — a call of `close` is made for a descriptor that is open, and is the only one.

## Main results

* `run_heldExactly` — the references are those of the holders, in such runs.
* `not_run_heldExactly` — what happens in other runs.
-/

set_option linter.all false

namespace RtThread

open Function Option List
open Function (update)

/-- The fields of a `struct dfs_fd` that the table looks at: whether `magic` is `DFS_FD_MAGIC`, and
`ref_count`. -/
structure DfsFd where
  magic : Bool
  refCount : ℤ

/-- A `struct dfs_fdtable`, whose entries are addresses, and the memory. -/
structure FdTable where
  fds : List (Option ℕ)
  mem : ℕ → DfsFd

/-- `DFS_FD_OFFSET`. -/
def dfsFdOffset : ℤ := 3

namespace FdTable

/-- An entry that `fd_alloc` takes. -/
def Empty (t : FdTable) (e : Option ℕ) : Prop := ∀ d ∈ e, (t.mem d).refCount = 0

instance (t : FdTable) (e : Option ℕ) : Decidable (t.Empty e) := by
  unfold Empty
  infer_instance

/-- `fd_alloc`, with `DFS_FD_MAX`: the index is the length of the table when it fails.  The table
can be made larger or not, and `rt_calloc` returns `new`. -/
def fdAlloc (fdMax : ℕ) (reallocOk : Bool) (new : Option ℕ) (t : FdTable) : FdTable × ℕ :=
  let idx := t.fds.findIdx fun e => t.Empty e
  let maxfd := t.fds.length
  let cnt := if maxfd + 4 > fdMax then fdMax else maxfd + 4
  if idx = maxfd ∧ maxfd < fdMax ∧ reallocOk = false then (t, idx)
  else
    let t := if idx = maxfd ∧ maxfd < fdMax then
        { t with fds := t.fds ++ List.replicate (cnt - maxfd) none }
      else t
    if t.fds[idx]? = some none then
      match new with
      | some a => (⟨t.fds.set idx (some a), update t.mem a ⟨false, 0⟩⟩, idx)
      | none => (t, t.fds.length)
    else (t, idx)

/-- `fd_new`: the descriptor, and its number. -/
def fdNew (fdMax : ℕ) (reallocOk : Bool) (new : Option ℕ) (t : FdTable) :
    FdTable × Option (ℕ × ℤ) :=
  let (t, idx) := t.fdAlloc fdMax reallocOk new
  match t.fds[idx]?.join with
  | some d => ({ t with mem := update t.mem d ⟨true, 1⟩ }, some (d, idx + dfsFdOffset))
  | none => (t, none)

/-- `fd_get`. -/
def fdGet (fd : ℤ) (t : FdTable) : FdTable × Option ℕ :=
  let fd := fd - dfsFdOffset
  if fd < 0 then (t, none)
  else
    match t.fds[fd.toNat]?.join with
    | some d =>
      if (t.mem d).magic = true then
        ({ t with mem := update t.mem d ⟨true, (t.mem d).refCount + 1⟩ }, some d)
      else (t, none)
    | none => (t, none)

/-- `fd_put`: the descriptor is freed with its last reference.  What is in freed memory is taken to
stay there. -/
def fdPut (d : ℕ) (t : FdTable) : FdTable :=
  let count := (t.mem d).refCount - 1
  let t := { t with mem := update t.mem d ⟨(t.mem d).magic, count⟩ }
  if count = 0 then { t with fds := t.fds.set (t.fds.findIdx (· = some d)) none } else t

end FdTable

/-! ### The calls -/

/-- A call in progress: what it does next, and the descriptor that it does this to.  A call of
`open` has a number from `fd_new` or has got its descriptor again; one that fails gives back two
references, as does one of `close`. -/
inductive FdCall
  | opening (fd : ℤ) (d : ℕ)
  | opened (d : ℕ)
  | failed (d : ℕ)
  | closing (d : ℕ)
  | closed (d : ℕ)
  | inUse (d : ℕ)
  deriving DecidableEq

/-- The table, the calls in progress, and the descriptors that are open: those for which `fd_new`
has made a reference that has not been given back. -/
structure FdSys where
  table : FdTable
  calls : List FdCall
  isOpen : ℕ → Bool

/-- A section of a call.  A call begins with `fd_new` or `fd_get`; a section of a call in progress
that follows a call of the driver has its result. -/
inductive FdAction
  | openNew (reallocOk : Bool) (new : Option ℕ)
  | close (fd : ℤ)
  | use (fd : ℤ)
  | go (c : FdCall) (result : ℤ)

/-- What happens to the references of a descriptor. -/
inductive FdEvent
  | acquired (d : ℕ)
  | put (d : ℕ)
  deriving DecidableEq

namespace FdSys

/-- A call goes on, or returns. -/
def move (s : FdSys) (c : FdCall) (next : Option FdCall) : List FdCall :=
  next.toList ++ s.calls.erase c

/-- One section.  Memory that has been allocated is not in the table. -/
def step (fdMax : ℕ) (s : FdSys) : FdAction → Option (FdSys × List FdEvent)
  | .openNew reallocOk new =>
    if ∀ a ∈ new, some a ∉ s.table.fds then
      match s.table.fdNew fdMax reallocOk new with
      | (table, some (d, fd)) =>
        some (⟨table, .opening fd d :: s.calls, update s.isOpen d true⟩, [.acquired d])
      | (table, none) => some ({ s with table := table }, [])
    else none
  | .close fd =>
    match s.table.fdGet fd with
    | (table, some d) =>
      some ({ s with table := table, calls := .closing d :: s.calls }, [.acquired d])
    | (_, none) => some (s, [])
  | .use fd =>
    match s.table.fdGet fd with
    | (table, some d) =>
      some ({ s with table := table, calls := .inUse d :: s.calls }, [.acquired d])
    | (_, none) => some (s, [])
  | .go c result =>
    if c ∈ s.calls then
      match c with
      | .opening fd _ =>
        match s.table.fdGet fd with
        | (table, some d) =>
          some ({ s with table := table, calls := s.move c (some (.opened d)) }, [.acquired d])
        | (_, none) => none
      | .opened d =>
        some (⟨s.table.fdPut d, s.move c (if result < 0 then some (.failed d) else none), s.isOpen⟩,
          [.put d])
      | .failed d =>
        some (⟨s.table.fdPut d, s.move c none, update s.isOpen d false⟩, [.put d])
      | .closing d =>
        some (⟨s.table.fdPut d, s.move c (if result < 0 then none else some (.closed d)), s.isOpen⟩,
          [.put d])
      | .closed d =>
        some (⟨s.table.fdPut d, s.move c none, update s.isOpen d false⟩, [.put d])
      | .inUse d => some (⟨s.table.fdPut d, s.move c none, s.isOpen⟩, [.put d])
    else none

/-- The call has a reference of its own. -/
def Holds (d : ℕ) (c : FdCall) : Prop := c = .opened d ∨ c = .closing d ∨ c = .inUse d

instance (d : ℕ) (c : FdCall) : Decidable (Holds d c) :=
  inferInstanceAs (Decidable (_ ∨ _ ∨ _))

/-- The descriptor that the call is opening or closing. -/
def owned : FdCall → Option ℕ
  | .opening _ d | .opened d | .failed d | .closing d | .closed d => some d
  | .inUse _ => none

/-- The call is opening or closing the descriptor. -/
def Owns (d : ℕ) (c : FdCall) : Prop := owned c = some d

instance (d : ℕ) (c : FdCall) : Decidable (Owns d c) :=
  inferInstanceAs (Decidable (_ = _))

/-- How many hold a descriptor: it does itself while it is open, and so do the calls. -/
def holders (s : FdSys) (d : ℕ) : ℕ := (s.isOpen d).toNat + s.calls.countP fun c => Holds d c

/-- A call of `close` is made for a descriptor that is open, and no other call is opening or closing
it. -/
def ClosesOnce (s : FdSys) : FdAction → Prop
  | .close fd => ∀ d ∈ (s.table.fdGet fd).2, s.isOpen d = true ∧ ∀ c ∈ s.calls, ¬ Owns d c
  | _ => True

end FdSys

/-! ### The table -/

namespace FdTable

/-- The references of the descriptors in the table are as many as `n` says, and there are none to
other descriptors. -/
structure Counts (t : FdTable) (n : ℕ → ℕ) : Prop where
  distinct : ∀ (i j d : ℕ), t.fds[i]? = some (some d) → t.fds[j]? = some (some d) → i = j
  magic : ∀ d, some d ∈ t.fds → (t.mem d).magic = true
  count : ∀ d, some d ∈ t.fds → (t.mem d).refCount = n d ∧ 0 < n d
  gone : ∀ d, some d ∉ t.fds → n d = 0

variable {t t' : FdTable} {n : ℕ → ℕ} {d : ℕ} {fd : ℤ}

theorem Counts.mem_of_pos (h : Counts t n) (hd : 0 < n d) : some d ∈ t.fds := by
  by_contra hnot
  exact absurd (h.gone d hnot) (Nat.ne_of_gt hd)

theorem fdGet_cases (fd : ℤ) (t : FdTable) :
    t.fdGet fd = (t, none) ∨ ∃ d i : ℕ, fd = i + dfsFdOffset ∧ t.fds[i]? = some (some d) ∧
      t.fdGet fd = ({ t with mem := update t.mem d ⟨true, (t.mem d).refCount + 1⟩ }, some d) := by
  rw [fdGet]
  split
  · exact .inl rfl
  · next hfd =>
    split
    · next d hd =>
      split
      · refine .inr ⟨d, (fd - dfsFdOffset).toNat, by omega, ?_, rfl⟩
        simpa [join_eq_some_iff] using hd
      · exact .inl rfl
    · exact .inl rfl

section

variable (h : Counts t n)
include h

theorem Counts.fdGet_of_mem {i : ℕ} (hd : t.fds[i]? = some (some d)) :
    (t.fdGet (i + dfsFdOffset)).2 = some d := by
  have hmagic := h.magic d (mem_of_getElem? hd)
  rw [fdGet]
  rw [Int.add_sub_cancel, if_neg (by omega), Int.toNat_natCast, hd]
  simp only [join_some, hmagic, if_true]

theorem Counts.get (hd : some d ∈ t.fds) :
    Counts { t with mem := update t.mem d ⟨true, (t.mem d).refCount + 1⟩ }
      (update n d (n d + 1)) := by
  refine ⟨h.distinct, fun e he => ?_, fun e he => ?_, fun e he => ?_⟩
  · simp only [update_apply]
    split
    · rfl
    · exact h.magic e he
  · simp only [update_apply]
    split
    · next hed =>
      have hcount := (h.count d hd).1
      exact ⟨by simp [hcount], by omega⟩
    · exact h.count e he
  · have hne : e ≠ d := by
      rintro rfl
      exact he hd
    rw [update_of_ne hne]
    exact h.gone e he

theorem Counts.findIdx_eq {i : ℕ} (hi : t.fds[i]? = some (some d)) :
    t.fds.findIdx (· = some d) = i := by
  have hlt : t.fds.findIdx (· = some d) < t.fds.length :=
    findIdx_lt_length_of_exists ⟨some d, mem_of_getElem? hi, by simp⟩
  have hfound : t.fds[t.fds.findIdx (· = some d)] = some d := by
    simpa using findIdx_getElem (p := (· = some d)) (w := hlt)
  refine h.distinct _ i d ?_ hi
  rw [getElem?_eq_getElem hlt, hfound]

theorem Counts.mem_set {i : ℕ} (hi : t.fds[i]? = some (some d)) (e : ℕ) :
    some e ∈ t.fds.set i none ↔ some e ∈ t.fds ∧ e ≠ d := by
  constructor
  · intro he
    obtain ⟨j, hj⟩ := mem_iff_getElem?.1 he
    rw [getElem?_set] at hj
    split at hj
    · split at hj <;> simp at hj
    · next hij =>
      refine ⟨mem_of_getElem? hj, ?_⟩
      rintro rfl
      exact hij (h.distinct i j e hi hj)
  · rintro ⟨he, hne⟩
    obtain ⟨j, hj⟩ := mem_iff_getElem?.1 he
    have hij : i ≠ j := by
      rintro rfl
      rw [hi, some_inj, some_inj] at hj
      exact hne hj.symm
    refine mem_iff_getElem?.2 ⟨j, ?_⟩
    rw [getElem?_set_ne hij, hj]

theorem Counts.put (hd : 0 < n d) : Counts (t.fdPut d) (update n d (n d - 1)) := by
  have hmem := h.mem_of_pos hd
  obtain ⟨i, hi⟩ := mem_iff_getElem?.1 hmem
  have hcount := (h.count d hmem).1
  rw [fdPut]
  dsimp only
  split
  · -- the last reference
    next hzero =>
    rw [h.findIdx_eq hi]
    refine ⟨fun j k e hj hk => ?_, fun e he => ?_, fun e he => ?_, fun e he => ?_⟩
    · rw [getElem?_set] at hj hk
      split at hj
      · split at hj <;> simp at hj
      · split at hk
        · split at hk <;> simp at hk
        · exact h.distinct j k e hj hk
    · obtain ⟨he, hne⟩ := (h.mem_set hi e).1 he
      simp only [update_of_ne hne]
      exact h.magic e he
    · obtain ⟨he, hne⟩ := (h.mem_set hi e).1 he
      simp only [update_of_ne hne]
      exact h.count e he
    · by_cases hed : e = d
      · subst hed
        rw [update_self]
        omega
      · rw [update_of_ne hed]
        exact h.gone e fun hmem => he ((h.mem_set hi e).2 ⟨hmem, hed⟩)
  · next hpos =>
    refine ⟨h.distinct, fun e he => ?_, fun e he => ?_, fun e he => ?_⟩
    · simp only [update_apply]
      split
      · next hed => exact hed ▸ h.magic e he
      · exact h.magic e he
    · simp only [update_apply]
      split
      · next hed => exact ⟨by dsimp only; omega, by omega⟩
      · exact h.count e he
    · have hne : e ≠ d := by
        rintro rfl
        exact he hmem
      rw [update_of_ne hne]
      exact h.gone e he

theorem Counts.not_empty {e : Option ℕ} (he : e ∈ t.fds) (hempty : t.Empty e) : e = none := by
  cases e with
  | none => rfl
  | some d =>
    obtain ⟨hcount, hpos⟩ := h.count d he
    have hzero := hempty d rfl
    omega

theorem Counts.grow (k : ℕ) : Counts { t with fds := t.fds ++ replicate k none } n := by
  have hmem : ∀ d, some d ∈ t.fds ++ replicate k none ↔ some d ∈ t.fds := by
    simp
  refine ⟨fun i j d hi hj => ?_, fun d hd => h.magic d ((hmem d).1 hd),
    fun d hd => h.count d ((hmem d).1 hd), fun d hd => h.gone d fun hd' => hd ((hmem d).2 hd')⟩
  have hold : ∀ i : ℕ, (t.fds ++ replicate k none)[i]? = some (some d) →
      t.fds[i]? = some (some d) := by
    intro i hi
    rcases Nat.lt_or_ge i t.fds.length with hlt | hge
    · rwa [getElem?_append_left hlt] at hi
    · rw [getElem?_append_right hge, getElem?_replicate] at hi
      split at hi <;> simp at hi
  exact h.distinct i j d (hold i hi) (hold j hj)

theorem Counts.insert {i a : ℕ} (hi : t.fds[i]? = some none) (ha : some a ∉ t.fds) :
    Counts ⟨t.fds.set i (some a), update t.mem a ⟨true, 1⟩⟩ (update n a 1) := by
  have hlt : i < t.fds.length := (List.getElem?_eq_some_iff.1 hi).1
  have hget : ∀ j d, (t.fds.set i (some a))[j]? = some (some d) →
      j = i ∧ d = a ∨ j ≠ i ∧ d ≠ a ∧ t.fds[j]? = some (some d) := by
    intro j d hj
    rw [getElem?_set] at hj
    split at hj
    · next hij =>
      obtain rfl : a = d := by simpa [← hij, hlt] using hj
      exact .inl ⟨hij.symm, rfl⟩
    · next hij =>
      refine .inr ⟨Ne.symm hij, ?_, hj⟩
      rintro rfl
      exact ha (mem_of_getElem? hj)
  have hmem : ∀ d, some d ∈ t.fds.set i (some a) → d ≠ a → some d ∈ t.fds := by
    intro d hd hne
    obtain ⟨j, hj⟩ := mem_iff_getElem?.1 hd
    rcases hget j d hj with ⟨-, hda⟩ | ⟨-, -, hj⟩
    · exact absurd hda hne
    · exact mem_of_getElem? hj
  refine ⟨fun j k d hj hk => ?_, fun d hd => ?_, fun d hd => ?_, fun d hd => ?_⟩
  · rcases hget j d hj with ⟨rfl, hda⟩ | ⟨-, hne, hj⟩
    · rcases hget k d hk with ⟨rfl, -⟩ | ⟨-, hne, -⟩
      · rfl
      · exact absurd hda hne
    · rcases hget k d hk with ⟨-, hda⟩ | ⟨-, -, hk⟩
      · exact absurd hda hne
      · exact h.distinct j k d hj hk
  · simp only [update_apply]
    split
    · rfl
    · next hne => exact h.magic d (hmem d hd hne)
  · simp only [update_apply]
    split
    · exact ⟨rfl, Nat.one_pos⟩
    · next hne => exact h.count d (hmem d hd hne)
  · have hne : d ≠ a := by
      rintro rfl
      exact hd (List.mem_set hlt _)
    rw [update_of_ne hne]
    refine h.gone d fun hmem => hd ?_
    obtain ⟨j, hj⟩ := mem_iff_getElem?.1 hmem
    have hij : i ≠ j := by
      rintro rfl
      rw [hi] at hj
      cases hj
    refine mem_iff_getElem?.2 ⟨j, ?_⟩
    rw [getElem?_set_ne hij, hj]

/-- `fd_alloc` finds no entry, or a new descriptor is in the one that it finds. -/
theorem Counts.fdAlloc (fdMax : ℕ) (reallocOk : Bool) {new : Option ℕ}
    (hnew : ∀ a ∈ new, some a ∉ t.fds) :
    ∃ t₁ idx, t.fdAlloc fdMax reallocOk new = (t₁, idx) ∧
      (∀ (i d : ℕ), t.fds[i]? = some (some d) → t₁.fds[i]? = some (some d)) ∧
      (Counts t₁ n ∧ t₁.fds[idx]?.join = none ∨
        ∃ a, n a = 0 ∧ t₁.fds[idx]? = some (some a) ∧
          Counts { t₁ with mem := update t₁.mem a ⟨true, 1⟩ } (update n a 1)) := by
  have hfound : t.fds.findIdx (fun e => t.Empty e) < t.fds.length →
      t.fds[t.fds.findIdx fun e => t.Empty e]? = some none := by
    intro hlt
    have hempty := findIdx_getElem (p := fun e => t.Empty e) (w := hlt)
    have hmem := getElem_mem hlt
    rw [getElem?_eq_getElem hlt, h.not_empty hmem (of_decide_eq_true hempty)]
  have hle : t.fds.findIdx (fun e => t.Empty e) ≤ t.fds.length := findIdx_le_length
  rw [FdTable.fdAlloc]
  generalize (t.fds.findIdx fun e => t.Empty e) = idx at hfound hle
  dsimp only
  split
  · next hfail =>
    exact ⟨t, idx, rfl, fun _ _ hi => hi, .inl ⟨h, by simp [hfail.1]⟩⟩
  · -- the table gets larger, or has an empty entry
    obtain ⟨t', ht', hcounts, hkeep, hnew', hnone⟩ : ∃ t' : FdTable,
        (if idx = t.fds.length ∧ t.fds.length < fdMax then
          { t with fds := t.fds ++ replicate ((if t.fds.length + 4 > fdMax then fdMax
            else t.fds.length + 4) - t.fds.length) none } else t) = t' ∧ Counts t' n ∧
        (∀ (i d : ℕ), t.fds[i]? = some (some d) → t'.fds[i]? = some (some d)) ∧
        (∀ a ∈ new, some a ∉ t'.fds) ∧ (t'.fds[idx]? = some none ∨ t'.fds[idx]? = none) := by
      split
      · next hgrow =>
        refine ⟨_, rfl, h.grow _, fun i d hi => ?_, fun a ha => ?_, .inl ?_⟩
        · rw [List.getElem?_append_left (List.getElem?_eq_some_iff.1 hi).1, hi]
        · simpa using hnew a ha
        · rw [hgrow.1, getElem?_append_right (Nat.le_refl _), getElem?_replicate, if_pos]
          split <;> omega
      · refine ⟨t, rfl, h, fun _ _ hi => hi, hnew, ?_⟩
        rcases Nat.lt_or_eq_of_le hle with hlt | heq
        · exact .inl (hfound hlt)
        · exact .inr (by simp [heq])
    rw [ht']
    split
    · next hentry =>
      cases new with
      | none => exact ⟨t', t'.fds.length, rfl, hkeep, .inl ⟨hcounts, by simp⟩⟩
      | some a =>
        have ha := hnew' a rfl
        have hlt : idx < t'.fds.length := (List.getElem?_eq_some_iff.1 hentry).1
        refine ⟨_, idx, rfl, fun i d hi => ?_, .inr ⟨a, hcounts.gone a ha, ?_, ?_⟩⟩
        · have hne : idx ≠ i := by
            rintro rfl
            rw [hkeep idx d hi] at hentry
            cases hentry
          rw [getElem?_set_ne hne, hkeep i d hi]
        · simp [hlt]
        · simpa using hcounts.insert hentry ha
    · next hentry =>
      refine ⟨t', idx, rfl, hkeep, .inl ⟨hcounts, ?_⟩⟩
      rw [hnone.resolve_left hentry]
      rfl

/-- **`fd_new`** fails, or a new descriptor gets a number. -/
theorem Counts.fdNew (fdMax : ℕ) (reallocOk : Bool) {new : Option ℕ}
    (hnew : ∀ a ∈ new, some a ∉ t.fds) :
    ∃ t', (∀ (i d : ℕ), t.fds[i]? = some (some d) → t'.fds[i]? = some (some d)) ∧
      (t.fdNew fdMax reallocOk new = (t', none) ∧ Counts t' n ∨
        ∃ d, ∃ i : ℕ, t.fdNew fdMax reallocOk new = (t', some (d, i + dfsFdOffset)) ∧ n d = 0 ∧
          t'.fds[i]? = some (some d) ∧ Counts t' (update n d 1)) := by
  obtain ⟨t₁, idx, halloc, hkeep, ⟨hcounts, hnone⟩ | ⟨a, ha, hidx, hcounts⟩⟩ :=
    h.fdAlloc fdMax reallocOk hnew
  · refine ⟨t₁, hkeep, .inl ⟨?_, hcounts⟩⟩
    simp only [FdTable.fdNew, halloc, hnone]
  · refine ⟨{ t₁ with mem := update t₁.mem a ⟨true, 1⟩ }, hkeep,
      .inr ⟨a, idx, ?_, ha, hidx, hcounts⟩⟩
    simp only [FdTable.fdNew, halloc, hidx, join_some]

theorem Counts.put_entry (hd : 0 < n d) {i e : ℕ}
    (hi : t.fds[i]? = some (some e)) (he : e = d → 1 < n d) :
    (t.fdPut d).fds[i]? = some (some e) := by
  obtain ⟨k, hk⟩ := mem_iff_getElem?.1 (h.mem_of_pos hd)
  have hcount := (h.count d (mem_of_getElem? hk)).1
  rw [fdPut]
  dsimp only
  split
  · next hzero =>
    have hne : k ≠ i := by
      rintro rfl
      rw [hk, some_inj, some_inj] at hi
      have hlt := he hi.symm
      omega
    rw [h.findIdx_eq hk, getElem?_set_ne hne, hi]
  · exact hi

end

end FdTable

/-! ### The holders -/

namespace FdSys

variable {s s' : FdSys} {c c' : FdCall} {next : Option FdCall} {d e : ℕ} {fd : ℤ}
variable {tr : List FdEvent} {out : List FdEvent} {a : FdAction} {fdMax : ℕ}

theorem countP_move (hc : c ∈ s.calls) (next : Option FdCall) (P : FdCall → Bool) :
    (s.move c next).countP P + (if P c then 1 else 0) = s.calls.countP P + next.toList.countP P := by
  rw [(perm_cons_erase hc).countP_eq P, move, countP_append, countP_cons]
  omega

theorem mem_move (hc : c' ∈ s.move c next) : c' ∈ next ∨ c' ∈ s.calls := by
  rcases mem_append.1 hc with hc | hc
  · exact .inl (by simpa using hc)
  · exact .inr (mem_of_mem_erase hc)

theorem holders_pos (hc : c ∈ s.calls) (h : Holds d c) : 0 < s.holders d := by
  have hpos : 0 < s.calls.countP fun c => Holds d c :=
    countP_pos_iff.2 ⟨c, hc, decide_eq_true h⟩
  rw [holders]
  omega

theorem holders_get {calls : List FdCall} (t : FdTable) (hcalls : ∀ e,
      calls.countP (fun c => Holds e c) = s.calls.countP (fun c => Holds e c) + if e = d then 1 else 0) :
    holders ⟨t, calls, s.isOpen⟩ = update s.holders d (s.holders d + 1) := by
  funext e
  rw [update_apply]
  simp only [holders, hcalls]
  split
  · next hed =>
    subst hed
    omega
  · rfl

theorem holders_put (t : FdTable) (hc : c ∈ s.calls) (hholds : ∀ e, Holds e c ↔ e = d)
    (hnext : ∀ c' ∈ next, ∀ e, ¬ Holds e c') :
    holders ⟨t, s.move c next, s.isOpen⟩ = update s.holders d (s.holders d - 1) := by
  funext e
  have hmove := countP_move hc next fun c => Holds e c
  have hzero : next.toList.countP (fun c => Holds e c) = 0 :=
    List.countP_eq_zero.2 fun c' hc' => by simpa using hnext c' (by simpa using hc') e
  have hpos := holders_pos hc ((hholds d).2 rfl)
  rw [update_apply]
  simp only [holders, decide_eq_true_eq, hholds e] at hmove hpos ⊢
  split
  · next hed =>
    subst hed
    rw [if_pos rfl] at hmove
    omega
  · next hed =>
    rw [if_neg hed] at hmove
    omega

theorem holders_release (t : FdTable) (hc : c ∈ s.calls) (hholds : ∀ e, ¬ Holds e c)
    (hopen : s.isOpen d = true) :
    holders ⟨t, s.move c none, update s.isOpen d false⟩ = update s.holders d (s.holders d - 1) := by
  funext e
  have hmove := countP_move hc none fun c => Holds e c
  have hzero : (none : Option FdCall).toList.countP (fun c => Holds e c) = 0 := rfl
  rw [update_apply]
  simp only [holders, decide_eq_true_eq, hholds e, if_false] at hmove ⊢
  split
  · next hed =>
    subst hed
    simp only [update_self, Bool.toNat_false, hopen, Bool.toNat_true]
    omega
  · next hed =>
    rw [update_of_ne hed]
    omega

/-- What holds between the sections of runs in which descriptors are closed once. -/
structure Inv (tr : List FdEvent) (s : FdSys) : Prop where
  counts : s.table.Counts s.holders
  /-- One call at most is opening or closing a descriptor, which is then open. -/
  owners : ∀ d, (s.calls.countP fun c => Owns d c) ≤ (s.isOpen d).toNat
  opening : ∀ fd d, .opening fd d ∈ s.calls →
    ∃ i : ℕ, fd = i + dfsFdOffset ∧ s.table.fds[i]? = some (some d)
  balance : ∀ d, tr.count (.acquired d) = tr.count (.put d) + s.holders d

/-- The system before the first call, when no table has been allocated. -/
def start (mem : ℕ → DfsFd) : FdSys := ⟨⟨[], mem⟩, [], fun _ => false⟩

theorem inv_start (mem : ℕ → DfsFd) : Inv [] (start mem) := by
  refine ⟨⟨?_, ?_, ?_, ?_⟩, ?_, ?_, ?_⟩ <;> simp [start, holders]

namespace Inv

section

variable (h : Inv tr s)
include h

/-- A descriptor that a call is opening or closing is open, and no other call is. -/
theorem owner (hc : c ∈ s.calls) (hown : Owns d c) :
    s.isOpen d = true ∧ ∀ c' ∈ s.calls, Owns d c' → c' = c := by
  have hle := h.owners d
  rw [(perm_cons_erase hc).countP_eq, countP_cons, if_pos (decide_eq_true hown)] at hle
  have hopen : s.isOpen d = true := by
    by_contra hnot
    simp [Bool.not_eq_true _ ▸ hnot] at hle
  refine ⟨hopen, fun c' hc' hown' => by_contra fun hne => ?_⟩
  have hpos : 0 < (s.calls.erase c).countP fun c => Owns d c :=
    countP_pos_iff.2 ⟨c', (mem_erase_of_ne hne).2 hc', decide_eq_true hown'⟩
  rw [hopen] at hle
  simp only [Bool.toNat_true] at hle
  omega

theorem owners_move (hc : c ∈ s.calls) (hnext : ∀ c' ∈ next, owned c' = owned c) (d : ℕ) :
    ((s.move c next).countP fun c => Owns d c) ≤ (s.isOpen d).toNat := by
  have hmove := countP_move hc next fun c => Owns d c
  have hle := h.owners d
  cases next with
  | none =>
    simp only [toList_none, countP_nil] at hmove
    omega
  | some c' =>
    have hc' : Owns d c' ↔ Owns d c := by rw [Owns, Owns, hnext c' rfl]
    simp only [toList_some, countP_singleton, decide_eq_true_eq, hc'] at hmove
    omega

theorem owners_release (hc : c ∈ s.calls) (hown : Owns d c) (e : ℕ) :
    ((s.move c none).countP fun c => Owns e c) ≤ (update s.isOpen d false e).toNat := by
  have hmove := countP_move hc none fun c => Owns e c
  have hle := h.owners e
  simp only [toList_none, countP_nil, decide_eq_true_eq] at hmove
  rw [update_apply]
  split
  · next hed =>
    subst hed
    rw [if_pos hown] at hmove
    rw [(h.owner hc hown).1] at hle
    simp only [Bool.toNat_true, Bool.toNat_false] at hle ⊢
    omega
  · omega

theorem get {i : ℕ} (hi : s.table.fds[i]? = some (some d))
    (hcalls : ∀ e, (s'.calls.countP fun c => Holds e c) =
      (s.calls.countP fun c => Holds e c) + if e = d then 1 else 0) (htable : s'.table =
      ⟨s.table.fds, update s.table.mem d ⟨true, (s.table.mem d).refCount + 1⟩⟩)
    (hopen : s'.isOpen = s.isOpen)
    (howners : ∀ e, (s'.calls.countP fun c => Owns e c) ≤ (s.isOpen e).toNat)
    (hopening : ∀ fd e, .opening fd e ∈ s'.calls → .opening fd e ∈ s.calls) :
    Inv (tr ++ [FdEvent.acquired d]) s' := by
  have hholders : s'.holders = update s.holders d (s.holders d + 1) := by
    rw [← holders_get s.table hcalls, ← hopen]
    rfl
  refine ⟨?_, hopen ▸ howners, fun fd e he => ?_, fun e => ?_⟩
  · rw [htable, hholders]
    exact h.counts.get (mem_of_getElem? hi)
  · rw [htable]
    exact h.opening fd e (hopening fd e he)
  · rw [hholders, update_apply, List.count_append, List.count_append, h.balance e]
    by_cases hed : e = d
    · subst hed
      simp
      omega
    · simp [hed, Ne.symm hed]

theorem put (hpos : 0 < s.holders d)
    (htable : s'.table = s.table.fdPut d) (hcalls : s'.calls = s.move c next)
    (hnext : ∀ fd e, .opening fd e ∉ next)
    (hholders : s'.holders = update s.holders d (s.holders d - 1))
    (howners : ∀ e, (s'.calls.countP fun c => Owns e c) ≤ (s'.isOpen e).toNat)
    (hother : ∀ fd, .opening fd d ∈ s.calls → 1 < s.holders d) :
    Inv (tr ++ [FdEvent.put d]) s' := by
  refine ⟨?_, howners, fun fd e he => ?_, fun e => ?_⟩
  · rw [htable, hholders]
    exact h.counts.put hpos
  · rw [hcalls] at he
    have he := (mem_move he).resolve_left (hnext fd e)
    obtain ⟨i, hfd, hi⟩ := h.opening fd e he
    refine ⟨i, hfd, ?_⟩
    rw [htable]
    refine h.counts.put_entry hpos hi ?_
    rintro rfl
    exact hother fd he
  · rw [hholders, update_apply, List.count_append, List.count_append, h.balance e]
    by_cases hed : e = d
    · subst hed
      simp
      omega
    · simp [hed, Ne.symm hed]

theorem put_own (hc : c ∈ s.calls) (hholds : ∀ e, Holds e c ↔ e = d)
    (hnext : ∀ c' ∈ next, owned c' = owned c ∧ ∀ e, ¬ Holds e c')
    (hopening : ∀ fd e, .opening fd e ∉ next) :
    Inv (tr ++ [FdEvent.put d]) ⟨s.table.fdPut d, s.move c next, s.isOpen⟩ := by
  have hholds' : Holds d c := (hholds d).2 rfl
  refine h.put (holders_pos hc hholds') rfl rfl hopening
    (holders_put _ hc hholds fun c' hc' => (hnext c' hc').2)
    (h.owners_move hc fun c' hc' => (hnext c' hc').1) fun fd hfd => ?_
  -- a descriptor that is being opened has the reference for being open as well
  have hpos : 0 < s.calls.countP fun c => Holds d c :=
    countP_pos_iff.2 ⟨c, hc, decide_eq_true hholds'⟩
  rw [holders, (h.owner hfd rfl).1, Bool.toNat_true]
  omega

theorem put_open (hc : c ∈ s.calls) (hown : Owns d c) (hholds : ∀ e, ¬ Holds e c)
    (hne : ∀ fd, .opening fd d ≠ c) :
    Inv (tr ++ [FdEvent.put d]) ⟨s.table.fdPut d, s.move c none, update s.isOpen d false⟩ := by
  obtain ⟨hopen, honly⟩ := h.owner hc hown
  refine h.put ?_ rfl rfl (by simp) (holders_release _ hc hholds hopen) (h.owners_release hc hown)
    fun fd hfd => absurd (honly _ hfd rfl) (hne fd)
  rw [holders, hopen, Bool.toNat_true]
  omega

theorem begin_ {t : FdTable} (hget : s.table.fdGet fd = (t, some d))
    (hholds : ∀ e, Holds e c ↔ e = d)
    (howners : ∀ e, Owns e c → (s.calls.countP fun c => Owns e c) < (s.isOpen e).toNat)
    (hopening : ∀ fd e, .opening fd e ≠ c) :
    Inv (tr ++ [FdEvent.acquired d]) ⟨t, c :: s.calls, s.isOpen⟩ := by
  rcases FdTable.fdGet_cases fd s.table with hnone | ⟨d', i, -, hi, hsome⟩
  · rw [hnone] at hget
    cases hget
  · rw [hsome] at hget
    cases hget
    refine h.get hi (fun e => ?_) rfl rfl (fun e => ?_) fun fd e he => ?_
    · rw [countP_cons]
      simp only [decide_eq_true_eq, hholds]
    · rw [countP_cons]
      have hle := h.owners e
      split
      · next hown => exact howners e (of_decide_eq_true hown)
      · exact hle
    · exact (mem_cons.1 he).resolve_left (hopening fd e)

theorem new {reallocOk : Bool} {new : Option ℕ} {t : FdTable}
    (hnew : ∀ a ∈ new, some a ∉ s.table.fds)
    (heq : s.table.fdNew fdMax reallocOk new = (t, some (d, fd))) :
    s.holders d = 0 ∧
      Inv (tr ++ [FdEvent.acquired d]) ⟨t, .opening fd d :: s.calls, update s.isOpen d true⟩ := by
  obtain ⟨t', hkeep, ⟨hfail, -⟩ | ⟨a, i, hok, ha, hi, hcounts⟩⟩ :=
    h.counts.fdNew fdMax reallocOk hnew
  · rw [hfail] at heq
    cases heq
  · rw [hok] at heq
    cases heq
    have hclosed : s.isOpen d = false := by
      rw [holders] at ha
      by_contra hnot
      simp [Bool.not_eq_false _ ▸ hnot] at ha
    have hholders : holders ⟨t, .opening (i + dfsFdOffset) d :: s.calls,
        update s.isOpen d true⟩ = update s.holders d 1 := by
      have hcount : ∀ e, ((.opening (i + dfsFdOffset) d :: s.calls).countP fun c => Holds e c) =
          s.calls.countP fun c => Holds e c := by
        intro e
        rw [countP_cons, if_neg (by simp [Holds]), Nat.add_zero]
      funext e
      rw [holders] at ha
      simp only [holders, hcount, update_apply]
      split
      · next hed =>
        subst hed
        rw [Bool.toNat_true]
        omega
      · rfl
    refine ⟨ha, hholders ▸ hcounts, fun e => ?_, fun fd e he => ?_, fun e => ?_⟩
    · have hle := h.owners e
      have hown : Owns e (.opening (i + dfsFdOffset) d) ↔ e = d := by
        simp [Owns, owned, eq_comm]
      dsimp only
      rw [countP_cons, update_apply]
      simp only [decide_eq_true_eq, hown]
      split
      · next hed =>
        subst hed
        rw [hclosed, Bool.toNat_false] at hle
        rw [Bool.toNat_true]
        omega
      · exact hle
    · rcases mem_cons.1 he with he | he
      · cases he
        exact ⟨i, rfl, hi⟩
      · obtain ⟨j, hfd, hj⟩ := h.opening fd e he
        exact ⟨j, hfd, hkeep j e hj⟩
    · rw [hholders, update_apply, List.count_append, List.count_append, h.balance e]
      by_cases hed : e = d
      · subst hed
        simp [ha]
      · simp [hed, Ne.symm hed]

theorem fdGet_opening (hc : .opening fd d ∈ s.calls) : (s.table.fdGet fd).2 = some d := by
  obtain ⟨i, rfl, hi⟩ := h.opening fd d hc
  exact h.counts.fdGet_of_mem hi

/-- **The step lemma.** -/
theorem step (hclose : ClosesOnce s a) (hs : FdSys.step fdMax s a = some (s', out)) :
    Inv (tr ++ out) s' := by
  cases a with
  | openNew reallocOk new =>
    rw [FdSys.step] at hs
    split at hs
    · next hnew =>
      split at hs
      · next heq =>
        cases hs
        exact (h.new hnew heq).2
      · next t heq =>
        cases hs
        rw [append_nil]
        obtain ⟨t', hkeep, ⟨hfail, hcounts⟩ | ⟨a, i, hok, -⟩⟩ :=
          h.counts.fdNew fdMax reallocOk hnew
        · rw [hfail] at heq
          cases heq
          refine ⟨hcounts, h.owners, fun fd d hd => ?_, h.balance⟩
          obtain ⟨i, hfd, hi⟩ := h.opening fd d hd
          exact ⟨i, hfd, hkeep i d hi⟩
        · rw [hok] at heq
          cases heq
    · cases hs
  | close fd =>
    rw [FdSys.step] at hs
    split at hs
    · next d heq =>
      cases hs
      obtain ⟨hopen, hnone⟩ := hclose d (by rw [heq]; rfl)
      refine h.begin_ heq (by simp [Holds, eq_comm]) (fun e he => ?_) (by simp)
      obtain rfl : d = e := some.inj he
      have hzero : (s.calls.countP fun c => Owns d c) = 0 :=
        List.countP_eq_zero.2 fun c hc => by simpa using hnone c hc
      rw [hzero, hopen]
      exact Nat.one_pos
    · cases hs
      rwa [append_nil]
  | use fd =>
    rw [FdSys.step] at hs
    split at hs
    · next d heq =>
      cases hs
      exact h.begin_ heq (by simp [Holds, eq_comm]) (fun e he => by cases he) (by simp)
    · cases hs
      rwa [append_nil]
  | go c result =>
    unfold FdSys.step at hs
    dsimp only at hs
    split at hs
    · next hc =>
      cases c with
      | opening fd _ =>
        have hget := h.fdGet_opening hc
        dsimp only at hs
        split at hs
        · next t d heq =>
          cases hs
          rw [heq, some_inj] at hget
          subst hget
          rcases FdTable.fdGet_cases fd s.table with hnone | ⟨e, i, -, hi, hsome⟩
          · rw [hnone] at heq
            cases heq
          · rw [hsome] at heq
            cases heq
            refine h.get hi (fun e => ?_) rfl rfl
              (h.owners_move hc fun c' hc' => by simp [← some.inj hc', owned])
              fun fd' e he => (mem_move he).resolve_left (by simp)
            have hmove := countP_move hc (some (.opened d)) fun c => Holds e c
            simpa [Holds, countP_singleton, eq_comm] using hmove
        · next heq =>
          rw [heq] at hget
          cases hget
      | opened d | closing d =>
        cases hs
        refine h.put_own hc (by simp [Holds, eq_comm]) ?_ ?_
        · split <;> simp [owned, Holds]
        · split <;> simp
      | failed d | closed d =>
        cases hs
        exact h.put_open hc rfl (by simp [Holds]) (by simp)
      | inUse d =>
        cases hs
        exact h.put_own hc (by simp [Holds, eq_comm]) (by simp) (by simp)
    · cases hs

end

end Inv

/-! ### The references -/

instance (s : FdSys) (a : FdAction) : Decidable (ClosesOnce s a) := by
  cases a <;> dsimp only [ClosesOnce] <;> infer_instance

/-- Every reference is that of a holder: the count of a descriptor in the table is that of its
holders, one that `fd_new` returns has none, and a descriptor is not given back more often than it
has been acquired. -/
def HeldExactly (fdMax : ℕ) (tr : List FdEvent) (s : FdSys) : Prop :=
  (∀ d, some d ∈ s.table.fds → (s.table.mem d).refCount = s.holders d) ∧
    (∀ reallocOk new t d fd, (∀ a ∈ new, some a ∉ s.table.fds) →
      s.table.fdNew fdMax reallocOk new = (t, some (d, fd)) → s.holders d = 0) ∧
    ∀ d, tr.count (.put d) ≤ tr.count (.acquired d)

/-- **The references** are those of the holders in every run in which a call of `close` is made for
a descriptor that is open, and while no other call is opening or closing it. -/
theorem run_heldExactly {mem : ℕ → DfsFd} (h : Run (step fdMax) ClosesOnce (start mem) tr s) :
    HeldExactly fdMax tr s := by
  have hinv : Inv tr s :=
    h.invariant Inv (inv_start mem) fun hinv hclose hs => hinv.step hclose hs
  refine ⟨fun d hd => (hinv.counts.count d hd).1, fun reallocOk new t d fd hnew heq => ?_,
    fun d => ?_⟩
  · exact (hinv.new hnew heq).1
  · rw [hinv.balance d]
    exact Nat.le_add_right _ _

/-- A descriptor is read while it is closed, and the reader frees it. -/
theorem run_heldExactly_readClosed : ∃ tr s, HeldExactly 16 tr s ∧
    tr.count (.acquired 7) = 4 ∧ s.table.fds = [none, none, none, none] := by
  have hsome : (exec (step 16) ClosesOnce (start fun _ => ⟨false, 0⟩)
      [.openNew true (some 7), .go (.opening 3 7) 0, .go (.opened 7) 0, .use 3, .close 3,
        .go (.closing 7) 0, .go (.closed 7) 0, .go (.inUse 7) 0]).any fun r =>
        decide (r.2.count (.acquired 7) = 4 ∧ r.1.table.fds = [none, none, none, none]) := by
    decide
  obtain ⟨s, tr, hrun, hr⟩ := Run.of_any hsome
  exact ⟨tr, s, run_heldExactly hrun, hr⟩

/-- Two calls of `close` find the descriptor, and both **give back the reference** for being open. -/
theorem not_run_heldExactly : ¬ ∀ (fdMax : ℕ) (mem : ℕ → DfsFd) (tr : List FdEvent) (s : FdSys),
    Run (step fdMax) (fun _ _ => True) (start mem) tr s → HeldExactly fdMax tr s := by
  intro h
  have hsome : (exec (step 16) (fun _ _ => True) (start fun _ => ⟨false, 0⟩)
      [.openNew true (some 7), .go (.opening 3 7) 0, .go (.opened 7) 0, .close 3, .close 3,
        .go (.closing 7) 0, .go (.closing 7) 0, .go (.closed 7) 0, .go (.closed 7) 0]).any fun r =>
        decide (r.2.count (.acquired 7) < r.2.count (.put 7)) := by
    decide
  obtain ⟨s, tr, hrun, hr⟩ := Run.of_any hsome
  have hle := (h 16 (fun _ => ⟨false, 0⟩) tr s hrun).2.2 7
  exact absurd hr (Nat.not_lt_of_le hle)

end FdSys

end RtThread
