import McCortexM3.Drivers.BxCanHandles
import McCortexM3.Run

/-!
# Runs of the bxCAN filters

As long as only handles below 31 are given out, and no handle that is taken, the bits of `alocmask`
are the active filters, each programmed in a place of its own.

## Main definitions

* `active` — the active filters with their handles, from what the requests have returned.
* `Avoids` — a request gives out no handle from 31 on, and none that is taken or of another case.
* `Accounts` — the bits are the handles of the active filters, and each has its place.

## Main results

* `run_accounts` — so it is after every run of such requests.
-/

set_option linter.all false

namespace RtThread

open Function Option List BxCan
open Function (update)

/-! ### Active filters -/

/-- The handles of the active filters after one more event. -/
def afterEvent (act : CanFilter → Option ℤ) : Event → CanFilter → Option ℤ
  | .activated f hdr => update act f (some hdr)
  | .deactivated f => update act f none

/-- The handles of the active filters. -/
def active (tr : List Event) : CanFilter → Option ℤ := tr.foldl afterEvent fun _ => none

theorem active_concat (tr : List Event) (e : Event) :
    active (tr ++ [e]) = afterEvent (active tr) e := by
  rw [active, active, foldl_append, foldl_cons, foldl_nil]

/-- No activation has returned a handle that was active. -/
def FreshHandles (tr : List Event) : Prop :=
  ∀ pre f hdr post, tr = pre ++ BxCan.Event.activated f hdr :: post → ∀ g, active pre g ≠ some hdr

theorem FreshHandles.concat {tr : List Event} (h : FreshHandles tr) {e : Event}
    (he : ∀ f hdr, e = .activated f hdr → ∀ g, active tr g ≠ some hdr) :
    FreshHandles (tr ++ [e]) := by
  intro pre f hdr post heq
  rcases eq_nil_or_concat post with rfl | ⟨post, last, rfl⟩
  · obtain ⟨rfl, hlast⟩ := append_inj' heq rfl
    exact he f hdr (List.cons.inj hlast).1
  · rw [concat_eq_append, ← cons_append, ← append_assoc] at heq
    exact h pre f hdr post (append_inj' heq rfl).1

/-! ### The invariant -/

variable {cl : Bool} {s : BxCan} {act : CanFilter → Option ℤ} {f g : CanFilter} {h : ℕ} {hdr : ℤ}
  {p q : ℕ × ℕ}

/-- A filter is programmed at the place of a handle below 31. -/
structure PlacedAt (c : BxCanConfig) (s : BxCan) (f : CanFilter) (h : ℕ) (p : ℕ × ℕ) : Prop where
  handle : HandleAt c f.fcase h p
  proper : f.Proper
  isProgrammed : f.Matches (s.filterRegister p.1) p.2

/-- The bits are the handles of the active filters, and each is at its place. -/
structure BxCan.Inv (c : BxCanConfig) (s : BxCan) (act : CanFilter → Option ℤ) : Prop where
  length : 0 < s.alocmask.length
  bits : ∀ h : ℕ, bit s.alocmask h = true ↔ ∃ f, act f = some (h : ℤ)
  placed : ∀ f hdr, act f = some hdr → ∃ (h : ℕ) (p : ℕ × ℕ), hdr = h ∧ PlacedAt c s f h p

theorem PlacedAt.eq_of_place (hf : PlacedAt (bxcanData cl) s f h p) {h' : ℕ}
    (hg : PlacedAt (bxcanData cl) s g h' p) : f = g :=
  CanFilter.eq_of_matches hf.proper.2 hg.proper (hf.handle.eq_of_bank hg.handle rfl).1
    hf.isProgrammed hg.isProgrammed

theorem BxCan.Inv.eq_of_handle (hs : Inv (bxcanData cl) s act) (hf : act f = some hdr)
    (hg : act g = some hdr) : f = g := by
  obtain ⟨h, p, rfl, hp⟩ := hs.placed f hdr hf
  obtain ⟨h', q, heq, hq⟩ := hs.placed g _ hg
  obtain rfl : h = h' := by exact_mod_cast heq
  obtain rfl := some.inj (hp.handle.place.symm.trans hq.handle.place)
  exact hp.eq_of_place hq

theorem PlacedAt.store (hf : PlacedAt (bxcanData cl) s f h p) {h' : ℕ}
    (hq : HandleAt (bxcanData cl) g.fcase h' q) (hne : h ≠ h') (words : List (BitVec 32)) :
    PlacedAt (bxcanData cl) ⟨words, update s.filterRegister q.1
      (g.store (s.filterRegister q.1) q.2)⟩ f h p := by
  refine ⟨hf.handle, hf.proper, ?_⟩
  dsimp only
  by_cases hbank : p.1 = q.1
  · obtain ⟨hcase, hplace⟩ := hf.handle.eq_of_bank hq hbank
    have hoff : p.2 ≠ q.2 := fun heq => hne (hplace heq)
    rw [hbank, update_self, ← hbank]
    refine CanFilter.matches_store_of_ne hf.isProgrammed hcase.symm hf.handle.lt_places ?_ hoff
    rw [hcase]
    exact hq.lt_places
  · rw [update_of_ne hbank]
    exact hf.isProgrammed

theorem CanFilter.fcase_clear (f : CanFilter) : f.clear.fcase = f.fcase := by
  obtain ⟨fcase, first, second⟩ := f
  cases fcase <;> rfl

variable {pitem : CanFilterItem} {stack : ℕ × ℕ} {actived : Bool}

theorem BxCan.Inv.of_found (hs : Inv (bxcanData cl) s act)
    (hfind : s.bxcanfindfilter (bxcanData cl) pitem stack = (some h, p)) :
    act pitem.filter = some (h : ℤ) ∧ PlacedAt (bxcanData cl) s pitem.filter h p := by
  obtain ⟨hmask, hbit, hplace, hmatch⟩ := findLoop_some hfind
  obtain ⟨g, hg⟩ := (hs.bits h).1 hbit
  obtain ⟨h', q, heq, hq⟩ := hs.placed g _ hg
  obtain rfl : h = h' := by exact_mod_cast heq
  obtain rfl := hplace q hq.handle.place
  -- the bank is for the case of both
  have hhandle : HandleAt (bxcanData cl) pitem.filter.fcase h p :=
    ⟨hq.handle.lt, hmask, hq.handle.place⟩
  obtain rfl : pitem.filter = g := CanFilter.eq_of_matches pitem.second_filter hq.proper
    (hhandle.eq_of_bank hq.handle rfl).1 hmatch hq.isProgrammed
  exact ⟨hg, hq⟩

theorem lt_maxFilters (hlt : h < 31) : h < (bxcanData cl).maxFilters := by
  cases cl
  · exact hlt.trans (by decide)
  · exact hlt.trans (by decide)

section

variable (hs : Inv (bxcanData cl) s act)
include hs

theorem BxCan.Inv.of_not_found (hfind : s.bxcanfindfilter (bxcanData cl) pitem stack = (none, p)) :
    act pitem.filter = none := by
  by_contra hne
  obtain ⟨hdr, hact⟩ := ne_none_iff_exists'.1 hne
  obtain ⟨h, q, rfl, hq⟩ := hs.placed _ _ hact
  have hbit := (hs.bits h).2 ⟨_, hact⟩
  exact findLoop_none hfind (mem_range.2 (lt_maxFilters hq.handle.lt)) hq.handle.mask hbit
    hq.handle.place hq.isProgrammed

theorem BxCan.Inv.activate (hnone : act pitem.filter = none)
    (hfits : pitem.Fits) (hq : HandleAt (bxcanData cl) pitem.filter.fcase h q)
    (hfree : bit s.alocmask h = false) :
    Inv (bxcanData cl)
      (program ⟨s.alocmask.set (h / 32)
        (s.alocmask.getD (h / 32) 0 ||| 1#32 <<< (h % 0x1F)), s.filterRegister⟩ pitem true hdr q).1
      (update act pitem.filter (some (h : ℤ))) := by
  unfold program
  simp only [if_true, canFilterInit_eq]
  refine ⟨by simpa using hs.length, fun j => ?_, fun f hdr hf => ?_⟩
  · dsimp only
    rw [bit_set_or hs.length hq.lt, Bool.or_eq_true, hs.bits, decide_eq_true_eq]
    constructor
    · rintro (⟨g, hg⟩ | rfl)
      · have hne : g ≠ pitem.filter := fun heq => by simp [heq, hnone] at hg
        exact ⟨g, by rw [update_of_ne hne, hg]⟩
      · exact ⟨_, update_self ..⟩
    · rintro ⟨g, hg⟩
      by_cases heq : g = pitem.filter
      · rw [heq, update_self] at hg
        have hcast := some.inj hg
        exact .inr (by omega)
      · rw [update_of_ne heq] at hg
        exact .inl ⟨g, hg⟩
  · by_cases heq : f = pitem.filter
    · rw [heq, update_self] at hf
      cases hf
      have hproper := pitem.proper_filter hfits
      refine ⟨h, q, rfl, heq ▸ hq, heq ▸ hproper, ?_⟩
      dsimp only
      rw [update_self, heq]
      exact CanFilter.matches_store hproper hq.lt_places
    · rw [update_of_ne heq] at hf
      obtain ⟨h', p, rfl, hp⟩ := hs.placed f hdr hf
      have hne : h' ≠ h := by
        rintro rfl
        exact absurd ((hs.bits h').2 ⟨f, hf⟩) (by simp [hfree])
      exact ⟨h', p, rfl, hp.store hq hne _⟩

theorem BxCan.Inv.activated_event (hnone : act pitem.filter = none)
    (hfits : pitem.Fits) (hq : HandleAt (bxcanData cl) pitem.filter.fcase h q)
    (hfree : bit s.alocmask h = false) :
    let r := program ⟨s.alocmask.set (h / 32)
      (s.alocmask.getD (h / 32) 0 ||| 1#32 <<< (h % 0x1F)), s.filterRegister⟩ pitem true h q
    Inv (bxcanData cl) r.1 ((event pitem true r).foldl afterEvent act) ∧
      ∀ f hdr, .activated f hdr ∈ event pitem true r → ∀ g, act g ≠ some hdr := by
  intro r
  have hevent : event pitem true r = [.activated pitem.filter h] := rfl
  rw [hevent]
  refine ⟨hs.activate hnone hfits hq hfree, fun f hdr hmem g hg => ?_⟩
  obtain ⟨rfl, rfl⟩ := Event.activated.inj (mem_singleton.1 hmem)
  exact absurd ((hs.bits h).2 ⟨g, hg⟩) (by simp [hfree])

theorem BxCan.Inv.deactivate (hact : act pitem.filter = some (h : ℤ))
    (hp : PlacedAt (bxcanData cl) s pitem.filter h p) :
    Inv (bxcanData cl) (s.program pitem false h p).1 (update act pitem.filter none) := by
  have hclear : HandleAt (bxcanData cl) pitem.filter.clear.fcase h p := by
    rw [CanFilter.fcase_clear]
    exact hp.handle
  unfold program
  simp only [Bool.false_eq_true, if_false, canFilterInit_eq, Int.toNat_natCast]
  have hne_of : ∀ g hdr, act g = some hdr → g ≠ pitem.filter → hdr ≠ h := by
    rintro g hdr hg hne rfl
    exact hne (hs.eq_of_handle hg hact)
  refine ⟨by simpa using hs.length, fun j => ?_, fun f hdr hf => ?_⟩
  · dsimp only
    rw [bit_set_and hs.length hp.handle.lt, Bool.and_eq_true, hs.bits, decide_eq_true_eq]
    constructor
    · rintro ⟨⟨g, hg⟩, hj⟩
      have hne : g ≠ pitem.filter := by
        rintro rfl
        rw [hact] at hg
        have hcast := some.inj hg
        exact hj (by omega)
      exact ⟨g, by rw [update_of_ne hne, hg]⟩
    · rintro ⟨g, hg⟩
      have hne : g ≠ pitem.filter := fun heq => by simp [heq] at hg
      rw [update_of_ne hne] at hg
      have hj := hne_of g _ hg hne
      exact ⟨⟨g, hg⟩, fun heq => hj (by rw [heq])⟩
  · have hne : f ≠ pitem.filter := fun heq => by simp [heq] at hf
    rw [update_of_ne hne] at hf
    obtain ⟨h', q, rfl, hq⟩ := hs.placed f hdr hf
    have hj := hne_of f _ hf hne
    exact ⟨h', q, rfl, hq.store hclear (fun heq => hj (by rw [heq])) _⟩

end

/-! ### Requests -/

/-- An activation gives out no handle from 31 on, and none that is taken or of another case. -/
def Avoids (c : BxCanConfig) (s : BxCan) (pitem : CanFilterItem) (stack : ℕ × ℕ) : Prop :=
  pitem.Fits ∧ -1 ≤ pitem.hdr ∧
    ((s.bxcanfindfilter c pitem stack).1 = none →
      (pitem.hdr = -1 →
        (∀ h < 31, bit (c.filtermask pitem.fcase) h = true → bit s.alocmask h = true) →
          ∀ h < 32 * c.arraySize, bit (c.filtermask pitem.fcase) h = true →
            bit s.alocmask h = true) ∧
      (0 ≤ pitem.hdr → c.bxcancalcbaseoff pitem.hdr.toNat ≠ none →
        pitem.hdr < 31 ∧ bit (c.filtermask pitem.fcase) pitem.hdr.toNat = true ∧
          bit s.alocmask pitem.hdr.toNat = false))

/-- So it is for every item of a request that is reached. -/
def AvoidsAll (c : BxCanConfig) (actived : Bool) :
    BxCan → List (CanFilterItem × (ℕ × ℕ)) → Prop
  | _, [] => True
  | s, (pitem, stack) :: items =>
    (actived = true → Avoids c s pitem stack) ∧
      ((s.bxmodifyfilter c pitem actived stack).2.2 = .eok →
        AvoidsAll c actived (s.bxmodifyfilter c pitem actived stack).1 items)

/-- A request for an item keeps the invariant, and gives out a handle that is not active. -/
theorem BxCan.Inv.bxmodifyfilter (hs : Inv (bxcanData cl) s act)
    (ha : actived = true → Avoids (bxcanData cl) s pitem stack)
    {r : BxCan × CanFilterItem × FilterErr}
    (hr : s.bxmodifyfilter (bxcanData cl) pitem actived stack = r) :
    Inv (bxcanData cl) r.1 ((event pitem actived r).foldl afterEvent act) ∧
      ∀ f hdr, .activated f hdr ∈ event pitem actived r → ∀ g, act g ≠ some hdr := by
  subst hr
  unfold BxCan.bxmodifyfilter
  rcases hfind : s.bxcanfindfilter (bxcanData cl) pitem stack with ⟨_ | h, p⟩
  · have hnone := hs.of_not_found hfind
    dsimp only
    cases actived with
    | false =>
      have hsame : update act pitem.filter none = act :=
        update_eq_self_iff.2 hnone.symm
      simp [event, afterEvent, hsame, hs]
    | true =>
      obtain ⟨hfits, hhdr, havoids⟩ := ha rfl
      rw [hfind] at havoids
      obtain ⟨hlowest, hown⟩ := havoids rfl
      rw [if_neg (by decide)]
      by_cases halloc : pitem.hdr = -1
      · rw [if_pos halloc]
        rcases hres : bxcanallocfilter ((bxcanData cl).filtermask pitem.fcase) s.alocmask
          (bxcanData cl).arraySize with ⟨_ | h, words⟩
        · simp [event, hs]
        · obtain ⟨hlt, hmask, hfree, hfirst, rfl⟩ := bxcanallocfilter_spec hres
          -- a free handle below 31 comes before the others
          have hlt31 : h < 31 := by
            by_contra hge
            have hall := hlowest halloc fun j hj => hfirst j (by omega)
            exact absurd (hall h hlt hmask) (by simp [hfree])
          obtain ⟨q, hq, -⟩ := exists_handleAt hlt31 hmask
          rw [← pitem.fcase_filter] at hq
          dsimp only
          rw [hq.place, getD_some]
          exact hs.activated_event hnone hfits hq hfree
      · rw [if_neg halloc, if_pos (show 0 ≤ pitem.hdr by omega)]
        cases hplace : (bxcanData cl).bxcancalcbaseoff pitem.hdr.toNat with
        | none => simp [event, hs]
        | some q =>
          obtain ⟨hlt, hmask, hfree⟩ := hown (by omega) (by simp [hplace])
          obtain ⟨h, hh⟩ := Int.eq_ofNat_of_zero_le (show 0 ≤ pitem.hdr by omega)
          rw [hh, Int.toNat_natCast] at hplace hmask hfree
          dsimp only
          rw [hh, Int.toNat_natCast]
          have hq : HandleAt (bxcanData cl) pitem.filter.fcase h q :=
            ⟨by omega, by rwa [pitem.fcase_filter], hplace⟩
          exact hs.activated_event hnone hfits hq hfree
  · obtain ⟨hact, hp⟩ := hs.of_found hfind
    dsimp only
    cases actived with
    | false =>
      refine ⟨?_, by simp [event]⟩
      simpa [event, program, afterEvent] using hs.deactivate hact hp
    | true =>
      obtain ⟨-, hhdr, -⟩ := ha rfl
      have hbusy : 0 ≤ pitem.hdr ∨ pitem.hdr = -1 := by omega
      simp [event, hbusy, hs]

theorem BxCan.Inv.setfilter {items : List (CanFilterItem × (ℕ × ℕ))} {tr : List Event}
    (hs : Inv (bxcanData cl) s (active tr)) (hfresh : FreshHandles tr)
    (ha : AvoidsAll (bxcanData cl) actived s items) :
    Inv (bxcanData cl) (s.setfilter (bxcanData cl) actived items).1
        (active (tr ++ (s.setfilter (bxcanData cl) actived items).2)) ∧
      FreshHandles (tr ++ (s.setfilter (bxcanData cl) actived items).2) := by
  induction items generalizing s tr with
  | nil =>
    unfold BxCan.setfilter
    rw [append_nil]
    exact ⟨hs, hfresh⟩
  | cons item items ih =>
    obtain ⟨pitem, stack⟩ := item
    obtain ⟨havoids, hrest⟩ := ha
    obtain ⟨hinv, hnew⟩ := hs.bxmodifyfilter havoids rfl
    unfold BxCan.setfilter
    dsimp only
    by_cases hok : (s.bxmodifyfilter (bxcanData cl) pitem actived stack).2.2 = .eok
    · rw [if_neg (not_not.2 hok)]
      simp only [event, hok, if_true, foldl_cons, foldl_nil, mem_singleton] at hinv hnew
      simp only [event, hok, if_true]
      rw [← active_concat] at hinv
      rw [← append_assoc]
      exact ih hinv (hfresh.concat fun f hdr heq => hnew f hdr heq.symm) (hrest hok)
    · rw [if_pos hok, append_nil]
      simp only [event, hok, if_false, foldl_nil] at hinv
      exact ⟨hinv, hfresh⟩

/-- The bits are the handles of the active filters, and each filter is programmed in a place of its
own; no activation has returned a handle that was active. -/
structure Accounts (c : BxCanConfig) (s : BxCan) (tr : List Event) : Prop where
  bits : ∀ h : ℕ, bit s.alocmask h = true ↔ ∃ f, active tr f = some (h : ℤ)
  placed : ∀ f hdr, active tr f = some hdr → ∃ p, c.bxcancalcbaseoff hdr.toNat = some p ∧
    f.Matches (s.filterRegister p.1) p.2
  places : ∀ f g hdr hdr', active tr f = some hdr → active tr g = some hdr' → f ≠ g →
    c.bxcancalcbaseoff hdr.toNat ≠ c.bxcancalcbaseoff hdr'.toNat
  fresh : FreshHandles tr

theorem BxCan.Inv.accounts {tr : List Event} (hs : Inv (bxcanData cl) s (active tr))
    (hfresh : FreshHandles tr) : Accounts (bxcanData cl) s tr := by
  refine ⟨hs.bits, fun f hdr hf => ?_, fun f g hdr hdr' hf hg hne heq => hne ?_, hfresh⟩
  · obtain ⟨h, p, rfl, hp⟩ := hs.placed f hdr hf
    exact ⟨p, by rw [Int.toNat_natCast, hp.handle.place], hp.isProgrammed⟩
  · obtain ⟨h, p, rfl, hp⟩ := hs.placed f hdr hf
    obtain ⟨h', q, rfl, hq⟩ := hs.placed g hdr' hg
    rw [Int.toNat_natCast, Int.toNat_natCast, hp.handle.place, hq.handle.place] at heq
    cases heq
    exact hp.eq_of_place hq

theorem inv_start (cl : Bool) (regs : ℕ → FilterRegs) :
    Inv (bxcanData cl) (start (bxcanData cl) regs) (active []) := by
  refine ⟨?_, fun h => by simp [active, start, bit], fun f hdr hf => by simp [active] at hf⟩
  rw [start, length_replicate]
  cases cl
  · decide
  · decide

/-- **The accounts of the filters.**  In every run of requests that give out no handle from 31 on,
and none that is taken or of another case, the bits of `alocmask` are the handles of the active
filters, each programmed in a place of its own, and no handle is returned that is active. -/
theorem run_accounts (cl : Bool) (regs : ℕ → FilterRegs) {s : BxCan} {tr : List Event}
    (h : Run (step (bxcanData cl)) (fun s r => AvoidsAll (bxcanData cl) r.actived s r.items)
      (start (bxcanData cl) regs) tr s) : Accounts (bxcanData cl) s tr := by
  have hinv : Inv (bxcanData cl) s (active tr) ∧ FreshHandles tr := by
    refine h.invariant (fun tr s => Inv (bxcanData cl) s (active tr) ∧ FreshHandles tr)
      ⟨inv_start cl regs, ?_⟩ ?_
    · intro pre f hdr post heq
      simp at heq
    · intro tr s r s' out hI ha hs
      obtain ⟨rfl, rfl⟩ := Prod.mk.inj (some.inj hs)
      exact hI.1.setfilter hI.2 ha
  exact hinv.1.accounts hinv.2

instance (c : BxCanConfig) (s : BxCan) (pitem : CanFilterItem) (stack : ℕ × ℕ) :
    Decidable (Avoids c s pitem stack) := by
  unfold Avoids CanFilterItem.Fits
  infer_instance

instance instDecidableAvoidsAll (c : BxCanConfig) (actived : Bool) :
    ∀ (items : List (CanFilterItem × (ℕ × ℕ))) (s : BxCan), Decidable (AvoidsAll c actived s items)
  | [], _ => isTrue trivial
  | (_, _) :: items, _ =>
    have := instDecidableAvoidsAll c actived items
    inferInstanceAs (Decidable (_ ∧ _))

/-- A standard identifier, for a handle that the driver chooses. -/
def standardItem (n : ℕ) : CanFilterItem := ⟨BitVec.ofNat 29 n, false, false, false, 0, -1⟩

/-- A filter takes the handle 2, and gives it back. -/
theorem accounts_activate_deactivate :
    ∃ s, Accounts (bxcanData true) s
      [.activated (standardItem 5).filter 2, .deactivated (standardItem 5).filter] := by
  have hrun : Run (step (bxcanData true))
      (fun s r => AvoidsAll (bxcanData true) r.actived s r.items)
      (start (bxcanData true) fun _ => 0) _ _ :=
    (Run.nil.snoc (a := (⟨true, [(standardItem 5, 0)]⟩ : Request)) (by decide +kernel) rfl).snoc
      (a := ⟨false, [(standardItem 5, 0)]⟩) (by decide +kernel) rfl
  exact ⟨_, run_accounts true (fun _ => 0) hrun⟩

/-- The twenty-sixth filter of a standard identifier has the handle 31, which is not set. -/
theorem not_accounts : ¬ ∀ (cl : Bool) (regs : ℕ → FilterRegs) (s : BxCan) (tr : List Event),
    Run (step (bxcanData cl)) (fun _ _ => True) (start (bxcanData cl) regs) tr s →
      Accounts (bxcanData cl) s tr := by
  intro hall
  have hsome : (exec (step (bxcanData true)) (fun _ _ => True) (start (bxcanData true) fun _ => 0)
      [⟨true, (List.range 26).map fun n => (standardItem n, 0)⟩]).any fun r =>
        active r.2 (standardItem 25).filter = some 31 ∧ bit r.1.alocmask 31 = false := by
    decide +kernel
  obtain ⟨s, tr, hrun, hr⟩ := Run.of_any hsome
  obtain ⟨hact, hbit⟩ : active tr (standardItem 25).filter = some 31 ∧ bit s.alocmask 31 = false :=
    hr
  have hset := ((hall true _ s tr hrun).bits 31).2 ⟨_, hact⟩
  rw [hbit] at hset
  cases hset

end RtThread
