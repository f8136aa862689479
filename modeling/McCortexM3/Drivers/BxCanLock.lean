import McCortexM3.Drivers.BxCan

/-!
# The scheduler lock in a request for bxCAN filters

`RT_CAN_CMD_SET_FILTER` locks the scheduler where it changes `alocmask`.  The section for an item
with a handle of its own is left without `rt_exit_critical` when `bxcancalcbaseoff` rejects the
handle.

The functions of `BxCan` are written again with `rt_scheduler_lock_nest`, which is not too big.

## Main definitions

* `enterCritical`, `exitCritical` — the lock.
* `BxCan.modifyLocked`, `BxCan.setfilterLocked` — `bxmodifyfilter` and `setfilter` with it.
* `BxCan.processed` — the items for which `bxmodifyfilter` is called, with the state before it.
* `BxCan.LockRight` — what a request is to leave.

## Main results

* `BxCan.fst_modifyLocked`, `BxCan.fst_setfilterLocked` — they do what those functions do.
* `BxCan.lockRight_iff` — when a request leaves it.
-/

set_option linter.all false

namespace RtThread

/-- `rt_enter_critical` and `rt_exit_critical`. -/
def enterCritical (nest : ℕ) : ℕ := nest + 1
@[inherit_doc enterCritical] def exitCritical (nest : ℕ) : ℕ :=
  if (nest : ℤ) - 1 ≤ 0 then 0 else nest - 1

@[simp] theorem exitCritical_enterCritical (nest : ℕ) :
    exitCritical (enterCritical nest) = nest := by
  rw [exitCritical, enterCritical]
  split
  · omega
  · rfl

namespace BxCan

/-- The loop of `bxcanallocfilter`. -/
def allocLocked (pmask palocmask : List (BitVec 32)) :
    List ℕ → ℕ → (Option ℕ × List (BitVec 32)) × ℕ
  | [], nest => ((none, palocmask), nest)
  | i :: is, nest =>
    let nest := enterCritical nest
    if pmask.getD i 0 &&& ~~~palocmask.getD i 0 ≠ 0 then
      let hdr := rtFfs (pmask.getD i 0 &&& ~~~palocmask.getD i 0) - 1 + i * 32
      ((some hdr, palocmask.set i (palocmask.getD i 0 ||| 1#32 <<< (hdr % 0x1F))),
        exitCritical nest)
    else allocLocked pmask palocmask is (exitCritical nest)

/-- The end of `bxmodifyfilter`. -/
def programLocked (s : BxCan) (pitem : CanFilterItem) (actived : Bool) (hdr : ℤ)
    (place : ℕ × ℕ) (nest : ℕ) : (BxCan × CanFilterItem × FilterErr) × ℕ :=
  (s.program pitem actived hdr place,
    if actived = false then exitCritical (enterCritical nest) else nest)

/-- `bxmodifyfilter`. -/
def modifyLocked (c : BxCanConfig) (s : BxCan) (pitem : CanFilterItem) (actived : Bool)
    (stack : ℕ × ℕ) (nest : ℕ) : (BxCan × CanFilterItem × FilterErr) × ℕ :=
  match s.bxcanfindfilter c pitem stack with
  | (none, place) =>
    if actived = false then ((s, pitem, .eok), nest)
    else if pitem.hdr = -1 then
      match allocLocked (c.filtermask pitem.fcase) s.alocmask (List.range c.arraySize) nest with
      | ((none, _), nest) => ((s, pitem, .enomem), nest)
      | ((some hdr, alocmask), nest) =>
        { s with alocmask := alocmask }.programLocked pitem actived hdr
          ((c.bxcancalcbaseoff hdr).getD place) nest
    else if 0 ≤ pitem.hdr then
      let nest := enterCritical nest
      match c.bxcancalcbaseoff pitem.hdr.toNat with
      | none => ((s, pitem, .error), nest)
      | some place =>
        let hdr := pitem.hdr.toNat
        { s with
          alocmask := s.alocmask.set (hdr / 32)
            (s.alocmask.getD (hdr / 32) 0 ||| 1#32 <<< (hdr % 0x1F)) }.programLocked pitem actived
          pitem.hdr place (exitCritical nest)
    else s.programLocked pitem actived (-1) place nest
  | (some hdr, place) =>
    if actived = false then s.programLocked pitem actived hdr place nest
    else if 0 ≤ pitem.hdr ∨ pitem.hdr = -1 then ((s, { pitem with hdr := hdr }, .ebusy), nest)
    else s.programLocked pitem actived hdr place nest

/-- `setfilter`, with its result. -/
def setfilterLocked (c : BxCanConfig) (actived : Bool) :
    BxCan → List (CanFilterItem × (ℕ × ℕ)) → ℕ → (BxCan × FilterErr) × ℕ
  | s, [], nest => ((s, .eok), nest)
  | s, (pitem, stack) :: items, nest =>
    match s.modifyLocked c pitem actived stack nest with
    | ((s, _, .eok), nest) => setfilterLocked c actived s items nest
    | ((s, _, res), nest) => ((s, res), nest)

/-- A call of `bxmodifyfilter`: the state before it, the item, and what is on the stack. -/
structure ItemCall where
  before : BxCan
  pitem : CanFilterItem
  stack : ℕ × ℕ

/-- The calls that `setfilter` makes. -/
def processed (c : BxCanConfig) (actived : Bool) :
    BxCan → List (CanFilterItem × (ℕ × ℕ)) → List ItemCall
  | _, [] => []
  | s, (pitem, stack) :: items =>
    let r := s.bxmodifyfilter c pitem actived stack
    ⟨s, pitem, stack⟩ :: if r.2.2 = .eok then processed c actived r.1 items else []

/-- The lock is left as it was, and an item that is rejected leaves the controller as it was. -/
def LockRight (c : BxCanConfig) (actived : Bool) (s : BxCan) (items : List (CanFilterItem × (ℕ × ℕ)))
    (nest : ℕ) : Prop :=
  (s.setfilterLocked c actived items nest).2 = nest ∧
    ∀ call ∈ s.processed c actived items,
      let r := call.before.bxmodifyfilter c call.pitem actived call.stack
      r.2.2 ≠ .eok → r.1 = call.before

/-- A filter that is to be active and is not found has a handle of its own that is none. -/
def ItemCall.NoHandle (c : BxCanConfig) (actived : Bool) (call : ItemCall) : Prop :=
  actived = true ∧ 0 ≤ call.pitem.hdr ∧ c.bxcancalcbaseoff call.pitem.hdr.toNat = none ∧
    (call.before.bxcanfindfilter c call.pitem call.stack).1 = none

instance (c : BxCanConfig) (actived : Bool) (call : ItemCall) :
    Decidable (call.NoHandle c actived) :=
  inferInstanceAs (Decidable (_ ∧ _))

/-! ### One item -/

variable {c : BxCanConfig} {s : BxCan} {pitem : CanFilterItem} {actived : Bool} {stack : ℕ × ℕ}

theorem allocLocked_eq (pmask palocmask : List (BitVec 32)) (count nest : ℕ) :
    allocLocked pmask palocmask (List.range count) nest =
      (bxcanallocfilter pmask palocmask count, nest) := by
  rw [bxcanallocfilter]
  induction List.range count with
  | nil => rfl
  | cons i is ih =>
    rw [allocLocked, List.find?_cons]
    by_cases hfree : pmask.getD i 0 &&& ~~~palocmask.getD i 0 ≠ 0
    · rw [decide_eq_true hfree]
      simp only [if_pos hfree, exitCritical_enterCritical]
    · rw [decide_eq_false hfree]
      simpa only [if_neg hfree, exitCritical_enterCritical] using ih

@[simp] theorem programLocked_eq (s : BxCan) (pitem : CanFilterItem) (actived : Bool) (hdr : ℤ)
    (place : ℕ × ℕ) (nest : ℕ) : s.programLocked pitem actived hdr place nest =
      (s.program pitem actived hdr place, nest) := by
  simp [programLocked]

/-- **One item** does with the controller what it does without the lock, and keeps the lock unless its
handle is none. -/
theorem modifyLocked_eq (c : BxCanConfig) (s : BxCan) (pitem : CanFilterItem) (actived : Bool)
    (stack : ℕ × ℕ) (nest : ℕ) :
    s.modifyLocked c pitem actived stack nest = (s.bxmodifyfilter c pitem actived stack,
      if ItemCall.NoHandle c actived ⟨s, pitem, stack⟩ then enterCritical nest else nest) := by
  rw [modifyLocked, bxmodifyfilter]
  simp only [ItemCall.NoHandle, allocLocked_eq, programLocked_eq, exitCritical_enterCritical]
  obtain ⟨⟨found, place⟩, hfind⟩ : ∃ r, s.bxcanfindfilter c pitem stack = r := ⟨_, rfl⟩
  simp only [hfind]
  cases found with
  | some hdr =>
    cases actived with
    | false => simp
    | true => by_cases hbusy : 0 ≤ pitem.hdr ∨ pitem.hdr = -1 <;> simp [hbusy]
  | none =>
    cases actived with
    | false => simp
    | true =>
      by_cases hnew : pitem.hdr = -1
      · rcases bxcanallocfilter (c.filtermask pitem.fcase) s.alocmask c.arraySize with
          ⟨_ | hdr, alocmask⟩ <;> simp [hnew]
      · by_cases hown : 0 ≤ pitem.hdr
        · cases hcalc : c.bxcancalcbaseoff pitem.hdr.toNat <;> simp [hnew, hown]
        · simp [hnew, hown]

/-- **An item that is rejected** leaves the controller as it was. -/
theorem bxmodifyfilter_of_rejected (h : (s.bxmodifyfilter c pitem actived stack).2.2 ≠ .eok) :
    (s.bxmodifyfilter c pitem actived stack).1 = s := by
  have hprogram : ∀ (s : BxCan) (hdr : ℤ) (place : ℕ × ℕ),
      (s.program pitem actived hdr place).2.2 = .eok := fun _ _ _ => rfl
  rw [bxmodifyfilter] at h ⊢
  obtain ⟨⟨found, place⟩, hfind⟩ : ∃ r, s.bxcanfindfilter c pitem stack = r := ⟨_, rfl⟩
  simp only [hfind] at h ⊢
  cases found with
  | some hdr =>
    dsimp only at h ⊢
    split at h
    · exact absurd (hprogram ..) h
    · split at h
      · next hactive hbusy => rw [if_neg hactive, if_pos hbusy]
      · exact absurd (hprogram ..) h
  | none =>
    dsimp only at h ⊢
    split at h
    · exact absurd rfl h
    · next hactive =>
      rw [if_neg hactive]
      split at h
      · next hnew =>
        rw [if_pos hnew]
        split at h
        · rfl
        · exact absurd (hprogram ..) h
      · next hnew =>
        rw [if_neg hnew]
        split at h
        · next hown =>
          rw [if_pos hown]
          split at h
          · rfl
          · exact absurd (hprogram ..) h
        · exact absurd (hprogram ..) h

theorem bxmodifyfilter_of_noHandle (h : ItemCall.NoHandle c actived ⟨s, pitem, stack⟩) :
    (s.bxmodifyfilter c pitem actived stack).2.2 = .error := by
  obtain ⟨hactive, hown, hnone, hfind⟩ := h
  dsimp only at hactive hown hnone hfind
  obtain ⟨⟨found, place⟩, hpair⟩ : ∃ r, s.bxcanfindfilter c pitem stack = r := ⟨_, rfl⟩
  rw [hpair] at hfind
  obtain rfl : found = none := hfind
  have hnew : pitem.hdr ≠ -1 := by omega
  simp [bxmodifyfilter, hpair, hactive, hnew, hown, hnone]

/-! ### All items -/

theorem fst_setfilterLocked (c : BxCanConfig) (actived : Bool) (s : BxCan)
    (items : List (CanFilterItem × (ℕ × ℕ))) (nest : ℕ) :
    (s.setfilterLocked c actived items nest).1.1 = (s.setfilter c actived items).1 := by
  induction items generalizing s nest with
  | nil => rfl
  | cons item items ih =>
    obtain ⟨pitem, stack⟩ := item
    rw [setfilterLocked, setfilter, modifyLocked_eq]
    obtain ⟨s', pitem', res⟩ := s.bxmodifyfilter c pitem actived stack
    cases res with
    | eok => exact ih ..
    | _ => rfl

/-- **A request** keeps the lock exactly if no item has a handle that is none. -/
theorem snd_setfilterLocked_iff (c : BxCanConfig) (actived : Bool) (s : BxCan)
    (items : List (CanFilterItem × (ℕ × ℕ))) (nest : ℕ) :
    (s.setfilterLocked c actived items nest).2 = nest ↔
      ∀ call ∈ s.processed c actived items, ¬ call.NoHandle c actived := by
  induction items generalizing s with
  | nil => exact iff_of_true rfl nofun
  | cons item items ih =>
    obtain ⟨pitem, stack⟩ := item
    rw [setfilterLocked, processed, modifyLocked_eq]
    by_cases hnone : ItemCall.NoHandle c actived ⟨s, pitem, stack⟩
    · have herror := bxmodifyfilter_of_noHandle hnone
      rw [if_pos hnone]
      generalize s.bxmodifyfilter c pitem actived stack = r at herror ⊢
      obtain ⟨s', pitem', res⟩ := r
      obtain rfl : res = .error := herror
      refine iff_of_false (Nat.succ_ne_self nest) ?_
      exact fun hall => hall _ List.mem_cons_self hnone
    · rw [if_neg hnone]
      obtain ⟨s', pitem', res⟩ := s.bxmodifyfilter c pitem actived stack
      cases res with
      | eok => simpa [hnone] using ih s'
      | _ => simp [hnone]

/-- **A request** leaves the lock and what it rejects as they were exactly if no item that is to be
active, and is not found, has a handle of its own that is none. -/
theorem lockRight_iff (c : BxCanConfig) (actived : Bool) (s : BxCan)
    (items : List (CanFilterItem × (ℕ × ℕ))) (nest : ℕ) :
    s.LockRight c actived items nest ↔
      ∀ call ∈ s.processed c actived items, ¬ call.NoHandle c actived := by
  rw [LockRight, snd_setfilterLocked_iff]
  exact and_iff_left fun call _ h => bxmodifyfilter_of_rejected h

/-- The handle 26 is none: the request returns with the lock. -/
theorem not_lockRight :
    ¬ ∀ (c : BxCanConfig) (actived : Bool) (s : BxCan) (items : List (CanFilterItem × (ℕ × ℕ)))
      (nest : ℕ), s.LockRight c actived items nest := by
  intro h
  have hnest := (h (bxcanData false) true (start (bxcanData false) fun _ => (0, 0))
    [(⟨0x123, false, false, false, 0, 26⟩, (0, 0))] 0).1
  exact absurd hnest (by decide +kernel)

end BxCan

end RtThread
