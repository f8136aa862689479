import McCortexM3.Drivers.BxCanPlaces

/-!
# The banks of the bxCAN filters

`bxcan1_filter_init` programs each bank for one FIFO and one case of filters, in the order in which
`bxcancalcbaseoff` counts the handles.  It rounds the number of banks of a case down, while there
are handles for the rest, so that the two agree where the filters of each case fill their banks.

## Main definitions

* `BxCanConfig.bxcan1FilterInit` — the registers of the banks.
* `BxCanConfig.PlacesRight` — each handle has a place of its own in a bank that is for its case.

## Main results

* `calcInFifo_eq`, `isFor_bxcan1FilterInit` — the bank of a handle, and what each bank is for.
* `BxCanConfig.placesRight_of_fits` — the places are right where the filters fill their banks.
-/

set_option linter.all false

namespace RtThread

/-- `BX_CAN2_FMRSTART`, with the registers of the connectivity line or without. -/
def bxCan2FmrStart (connectivityLine : Bool) : ℕ := if connectivityLine = true then 14 else 7

/-- `FMR`, `FS1R`, `FM1R`, `FFA1R` and `sFilterRegister`. -/
structure BankRegs where
  fmr : BitVec 32
  fs1r : BitVec 32
  fm1r : BitVec 32
  ffa1r : BitVec 32
  sFilterRegister : ℕ → FilterRegs

/-- The bits of a mask are set or cleared. -/
def assignBits (r mask : BitVec 32) (on : Bool) : BitVec 32 :=
  if on = true then r ||| mask else r &&& ~~~mask

/-- The bit of `FS1R`: a bank has 32-bit filters. -/
def FilterCase.scale : FilterCase → Bool
  | .id32bit | .id32mask => true
  | .id16bit | .id16mask => false

/-- The bit of `FM1R`: a bank has identifiers without masks. -/
def FilterCase.mode : FilterCase → Bool
  | .id16bit | .id32bit => true
  | .id16mask | .id32mask => false

namespace FilterMap

/-- The number of handles, and the number of banks, in front of those of a case. -/
def handlesBefore (m : FilterMap) : FilterCase → ℕ
  | .id32mask => 0
  | .id32bit => m.id32maskCnt
  | .id16mask => m.id32maskCnt + m.id32bitCnt
  | .id16bit => m.id32maskCnt + m.id32bitCnt + m.id16maskCnt
@[inherit_doc handlesBefore] def banksBefore (m : FilterMap) : FilterCase → ℕ
  | .id32mask => 0
  | .id32bit => m.id32maskCnt
  | .id16mask => m.id32maskCnt + m.id32bitCnt / 2
  | .id16bit => m.id32maskCnt + m.id32bitCnt / 2 + m.id16maskCnt / 2

/-- The tests of `bxcan1_filter_init` for a FIFO whose banks begin at `start`. -/
def bankCase (m : FilterMap) (start i : ℕ) : Option FilterCase :=
  if m.id32maskCnt ≠ 0 ∧ i < m.id32maskCnt + start then some .id32mask
  else if m.id32bitCnt ≠ 0 ∧ i < m.id32maskCnt + m.id32bitCnt / 2 + start then some .id32bit
  else if m.id16maskCnt ≠ 0 ∧
      i < m.id32maskCnt + m.id32bitCnt / 2 + m.id16maskCnt / 2 + start then some .id16mask
  else if m.id16bitCnt ≠ 0 ∧
      i < m.id32maskCnt + m.id32bitCnt / 2 + m.id16maskCnt / 2 + m.id16bitCnt / 4 + start then
    some .id16bit
  else none

end FilterMap

namespace BxCanConfig

/-- The first bank of a FIFO. -/
def firstBank (c : BxCanConfig) (fifo : Bool) : ℕ := if fifo = true then c.fifo1FilterOff else 0

/-- One round of the loop of `bxcan1_filter_init`. -/
def initBank (c : BxCanConfig) (r : BankRegs) (i : ℕ) : BankRegs :=
  let fifo := decide (¬ i < c.fifo1FilterOff)
  let mask := 0x01#32 <<< i
  let r := { r with fmr := r.fmr ||| 0x00000001 }
  let r := match (c.filterMap fifo).bankCase (c.firstBank fifo) i with
    | some k => { r with
        fs1r := assignBits r.fs1r mask k.scale
        fm1r := assignBits r.fm1r mask k.mode
        ffa1r := assignBits r.ffa1r mask fifo }
    | none => r
  { r with
    sFilterRegister := Function.update r.sFilterRegister i (0xFFFFFFFF, 0xFFFFFFFF)
    fmr := r.fmr &&& ~~~0x00000001#32 }

/-- `bxcan1_filter_init`. -/
def bxcan1FilterInit (connectivityLine : Bool) (c : BxCanConfig) (r : BankRegs) : BankRegs :=
  (List.range (bxCan2FmrStart connectivityLine)).foldl c.initBank r

/-- `h` is a handle of a FIFO, for filters of a case. -/
def IsHandle (c : BxCanConfig) (fifo : Bool) (k : FilterCase) (h : ℕ) : Prop :=
  c.shift fifo k ≤ h ∧ h < c.shift fifo k + (c.filterMap fifo).cnt k

end BxCanConfig

/-- A bank has been programmed for a FIFO and a case. -/
def BankRegs.IsFor (r : BankRegs) (bank : ℕ) (fifo : Bool) (k : FilterCase) : Prop :=
  r.fs1r.getLsbD bank = k.scale ∧ r.fm1r.getLsbD bank = k.mode ∧ r.ffa1r.getLsbD bank = fifo

/-- Each handle has **a place of its own in a bank for its FIFO and its case**, whatever the
registers hold before, and other numbers are errors. -/
structure BxCanConfig.PlacesRight (connectivityLine : Bool) (c : BxCanConfig) : Prop where
  place : ∀ fifo k h, c.IsHandle fifo k h → ∃ bank off, c.bxcancalcbaseoff h = some (bank, off) ∧
    off < k.places ∧ ∀ r, (c.bxcan1FilterInit connectivityLine r).IsFor bank fifo k
  inj : ∀ fifo k h fifo' k' h', c.IsHandle fifo k h → c.IsHandle fifo' k' h' →
    c.bxcancalcbaseoff h = c.bxcancalcbaseoff h' → h = h'
  error : ∀ h, (∀ fifo k, ¬ c.IsHandle fifo k h) → c.bxcancalcbaseoff h = none

/-- The numbers of 32-bit identifiers and 16-bit masks are even, and the banks are in the share of
their FIFO. -/
structure BxCanConfig.Fits (connectivityLine : Bool) (c : BxCanConfig) : Prop where
  even : ∀ fifo, (c.filterMap fifo).id32bitCnt % 2 = 0 ∧ (c.filterMap fifo).id16maskCnt % 2 = 0
  share : ∀ fifo, c.firstBank fifo + (c.filterMap fifo).banksBefore .id16bit +
      (c.filterMap fifo).id16bitCnt / 4 ≤
    if fifo = true then bxCan2FmrStart connectivityLine else c.fifo1FilterOff

variable {m : FilterMap} {k k' : FilterCase} {fifo fifo' : Bool} {bank start i j : ℕ}

theorem FilterCase.eq_of_bits (hscale : k.scale = k'.scale) (hmode : k.mode = k'.mode) :
    k = k' := by
  cases k <;> cases k' <;> simp_all [FilterCase.scale, FilterCase.mode]

theorem FilterCase.places_pos (k : FilterCase) : 0 < k.places := by cases k <;> decide

theorem getLsbD_assignBits (r : BitVec 32) (on : Bool) (hi : i < 32) :
    (assignBits r (1#32 <<< j) on).getLsbD i = if i = j then on else r.getLsbD i := by
  have hmask : (1#32 <<< j).getLsbD i = decide (i = j) := by
    rw [← BitVec.twoPow_eq, BitVec.getLsbD_twoPow]
    grind
  unfold assignBits
  cases on with
  | false =>
    rw [if_neg Bool.false_ne_true, BitVec.getLsbD_and, BitVec.getLsbD_not, hmask]
    by_cases hij : i = j <;> simp [hij, hi]
  | true =>
    rw [if_pos rfl, BitVec.getLsbD_or, hmask]
    by_cases hij : i = j <;> simp [hij]

theorem calcInFifo_eq {h : ℕ} (base : ℕ) (heven : m.id32bitCnt % 2 = 0 ∧ m.id16maskCnt % 2 = 0)
    (hj : j < m.cnt k) (hh : h = m.handlesBefore k + j) : BxCanConfig.calcInFifo m base h =
      some (base + m.banksBefore k + j / k.places, j % k.places) := by
  unfold BxCanConfig.calcInFifo
  cases k <;>
    simp only [FilterMap.cnt, FilterMap.handlesBefore, FilterMap.banksBefore,
      FilterCase.places] at hh hj ⊢ <;>
    split_ifs <;>
    (try rw [Option.some.injEq, Prod.mk.injEq]) <;>
    omega

theorem bankCase_eq (hle : start + m.banksBefore k ≤ i)
    (hlt : i < start + m.banksBefore k + m.cnt k / k.places) : m.bankCase start i = some k := by
  unfold FilterMap.bankCase
  cases k <;>
    simp only [FilterMap.cnt, FilterMap.banksBefore, FilterCase.places] at hle hlt <;>
    split_ifs <;> first | rfl | omega

namespace BxCanConfig

variable {c : BxCanConfig} {cl : Bool} {r : BankRegs}

theorem isFor_initBank (hi : i < 32) (hfifo : fifo = decide (¬ i < c.fifo1FilterOff))
    (hk : (c.filterMap fifo).bankCase (c.firstBank fifo) i = some k) :
    (c.initBank r i).IsFor i fifo k := by
  subst hfifo
  unfold initBank
  simp only [hk]
  exact ⟨(getLsbD_assignBits _ _ hi).trans (if_pos rfl),
    (getLsbD_assignBits _ _ hi).trans (if_pos rfl), (getLsbD_assignBits _ _ hi).trans (if_pos rfl)⟩

theorem isFor_initBank_of_ne (hi : i < 32) (hne : i ≠ j) (h : r.IsFor i fifo k) :
    (c.initBank r j).IsFor i fifo k := by
  obtain ⟨hscale, hmode, hffa⟩ := h
  unfold initBank
  dsimp only
  split
  · exact ⟨((getLsbD_assignBits _ _ hi).trans (if_neg hne)).trans hscale,
      ((getLsbD_assignBits _ _ hi).trans (if_neg hne)).trans hmode,
      ((getLsbD_assignBits _ _ hi).trans (if_neg hne)).trans hffa⟩
  · exact ⟨hscale, hmode, hffa⟩

/-- **Every round** of the loop. -/
theorem isFor_bxcan1FilterInit (hi : i < bxCan2FmrStart cl)
    (hfifo : fifo = decide (¬ i < c.fifo1FilterOff))
    (hk : (c.filterMap fifo).bankCase (c.firstBank fifo) i = some k) :
    (c.bxcan1FilterInit cl r).IsFor i fifo k := by
  have hmax : bxCan2FmrStart cl ≤ 14 := by cases cl <;> decide
  unfold bxcan1FilterInit
  generalize bxCan2FmrStart cl = n at hi hmax
  induction n with
  | zero => cases hi
  | succ n ih =>
    rw [List.range_succ, List.foldl_append, List.foldl_cons, List.foldl_nil]
    rcases Nat.lt_succ_iff_lt_or_eq.1 hi with hlt | rfl
    · exact isFor_initBank_of_ne (by omega) (by omega) (ih hlt (by omega))
    · exact isFor_initBank (by omega) hfifo hk

theorem shift_eq (c : BxCanConfig) (fifo : Bool) (k : FilterCase) :
    c.shift fifo k = c.firstBank fifo * 4 + (c.filterMap fifo).handlesBefore k := by
  unfold shift firstBank
  cases fifo <;> cases k <;> simp [FilterMap.handlesBefore, Nat.add_assoc]

theorem isHandle_iff {h : ℕ} :
    c.IsHandle fifo k h ↔ ∃ j < (c.filterMap fifo).cnt k, h = c.shift fifo k + j := by
  constructor
  · rintro ⟨hle, hlt⟩
    exact ⟨h - c.shift fifo k, by omega, by omega⟩
  · rintro ⟨j, hj, rfl⟩
    exact ⟨Nat.le_add_right _ _, Nat.add_lt_add_left hj _⟩

theorem exists_handle {h : ℕ} (hlt : h < m.handlesBefore .id16bit + m.id16bitCnt) :
    ∃ k, ∃ j < m.cnt k, h = m.handlesBefore k + j := by
  simp only [FilterMap.handlesBefore] at hlt
  by_cases hmask : h < m.id32maskCnt
  · exact ⟨.id32mask, h, hmask, (Nat.zero_add h).symm⟩
  by_cases hbit : h < m.id32maskCnt + m.id32bitCnt
  · refine ⟨.id32bit, h - m.id32maskCnt, ?_, ?_⟩ <;>
      simp only [FilterMap.cnt, FilterMap.handlesBefore] <;> omega
  by_cases hmask16 : h < m.id32maskCnt + m.id32bitCnt + m.id16maskCnt
  · refine ⟨.id16mask, h - (m.id32maskCnt + m.id32bitCnt), ?_, ?_⟩ <;>
      simp only [FilterMap.cnt, FilterMap.handlesBefore] <;> omega
  · refine ⟨.id16bit, h - (m.id32maskCnt + m.id32bitCnt + m.id16maskCnt), ?_, ?_⟩ <;>
      simp only [FilterMap.cnt, FilterMap.handlesBefore] <;> omega

theorem bxcancalcbaseoff_eq_none {h : ℕ} (hnot : ∀ fifo k, ¬ c.IsHandle fifo k h) :
    c.bxcancalcbaseoff h = none := by
  unfold bxcancalcbaseoff
  dsimp only
  rw [if_neg, if_neg]
  · rintro ⟨hle, hlt⟩
    obtain ⟨k, j, hj, hh⟩ := exists_handle (m := c.filterMap true) (h := h - c.fifo1FilterOff * 4)
      (by simp only [FilterMap.handlesBefore]; omega)
    refine hnot true k (isHandle_iff.2 ⟨j, hj, ?_⟩)
    rw [shift_eq, firstBank, if_pos rfl]
    omega
  · intro hlt
    obtain ⟨k, j, hj, hh⟩ := exists_handle (m := c.filterMap false) hlt
    refine hnot false k (isHandle_iff.2 ⟨j, hj, ?_⟩)
    rw [shift_eq, firstBank, if_neg Bool.false_ne_true]
    omega

variable (h : c.Fits cl) (hfour : ∀ fifo, (c.filterMap fifo).id16bitCnt % 4 = 0)
include h hfour

theorem bxcancalcbaseoff_eq (hj : j < (c.filterMap fifo).cnt k) :
    c.bxcancalcbaseoff (c.shift fifo k + j) =
      some (c.firstBank fifo + (c.filterMap fifo).banksBefore k + j / k.places, j % k.places) := by
  have hlt : (c.filterMap fifo).handlesBefore k + j < (c.filterMap fifo).id32maskCnt +
      (c.filterMap fifo).id32bitCnt + (c.filterMap fifo).id16maskCnt +
      (c.filterMap fifo).id16bitCnt := by
    cases k <;> simp only [FilterMap.cnt, FilterMap.handlesBefore] at hj ⊢ <;> omega
  rw [shift_eq]
  unfold bxcancalcbaseoff firstBank
  cases fifo with
  | false =>
    dsimp only
    rw [if_neg Bool.false_ne_true, if_pos (by omega), calcInFifo_eq 0 (h.even false) hj (by omega)]
  | true =>
    -- the handles of FIFO 0 are in front of those of FIFO 1
    have hshare := h.share false
    have heven := h.even false
    have hfour₀ := hfour false
    simp only [firstBank, FilterMap.banksBefore, Bool.false_eq_true, if_false] at hshare
    dsimp only
    rw [if_pos rfl, if_neg (by omega), if_pos ⟨by omega, by omega⟩,
      calcInFifo_eq c.fifo1FilterOff (h.even true) hj (by omega)]

theorem isFor_bank (hj : j < (c.filterMap fifo).cnt k) (r : BankRegs) :
    (c.bxcan1FilterInit cl r).IsFor
      (c.firstBank fifo + (c.filterMap fifo).banksBefore k + j / k.places) fifo k := by
  have heven := h.even fifo
  have hfour := hfour fifo
  have hfull : j / k.places < (c.filterMap fifo).cnt k / k.places := by
    cases k <;> simp only [FilterMap.cnt, FilterCase.places] at hj ⊢ <;> omega
  have hend : (c.filterMap fifo).banksBefore k + j / k.places <
      (c.filterMap fifo).banksBefore .id16bit + (c.filterMap fifo).id16bitCnt / 4 := by
    cases k <;>
      simp only [FilterMap.cnt, FilterMap.banksBefore, FilterCase.places] at hj hfull ⊢ <;> omega
  have hshare := h.share fifo
  have hshare₁ := h.share true
  refine isFor_bxcan1FilterInit ?_ ?_
    (bankCase_eq (Nat.le_add_right _ _) (Nat.add_lt_add_left hfull _))
  all_goals
    generalize j / k.places = q at hend ⊢
    cases fifo <;> simp only [firstBank, if_true, Bool.false_eq_true, if_false] at hshare hshare₁ ⊢
  · omega
  · omega
  · rw [decide_eq_false (by omega)]
  · rw [decide_eq_true (by omega)]

end BxCanConfig

/-- **Every handle has a place of its own** in a bank that has been programmed for it, if the
filters of each case fill their banks. -/
theorem BxCanConfig.placesRight_of_fits (cl : Bool) (c : BxCanConfig) (h : c.Fits cl)
    (hfour : ∀ fifo, (c.filterMap fifo).id16bitCnt % 4 = 0) : c.PlacesRight cl := by
  refine ⟨?_, ?_, fun _ => bxcancalcbaseoff_eq_none⟩
  · intro fifo k n hn
    obtain ⟨j, hj, rfl⟩ := isHandle_iff.1 hn
    exact ⟨_, _, bxcancalcbaseoff_eq h hfour hj, Nat.mod_lt _ k.places_pos, isFor_bank h hfour hj⟩
  · intro fifo k n fifo' k' n' hn hn' heq
    obtain ⟨j, hj, rfl⟩ := isHandle_iff.1 hn
    obtain ⟨j', hj', rfl⟩ := isHandle_iff.1 hn'
    rw [bxcancalcbaseoff_eq h hfour hj, bxcancalcbaseoff_eq h hfour hj', Option.some.injEq,
      Prod.mk.injEq] at heq
    -- the registers of the bank tell the FIFO and the case
    obtain ⟨hscale, hmode, hfifo⟩ := isFor_bank h hfour hj ⟨0, 0, 0, 0, fun _ => 0⟩
    obtain ⟨hscale', hmode', hfifo'⟩ := isFor_bank h hfour hj' ⟨0, 0, 0, 0, fun _ => 0⟩
    rw [heq.1] at hscale hmode hfifo
    obtain rfl : fifo = fifo' := hfifo.symm.trans hfifo'
    obtain rfl : k = k' :=
      FilterCase.eq_of_bits (hscale.symm.trans hscale') (hmode.symm.trans hmode')
    have hdiv : j / k.places = j' / k.places := by omega
    rw [← Nat.div_add_mod j k.places, ← Nat.div_add_mod j' k.places, hdiv, heq.2]

/-- The banks of the driver with the registers of the connectivity line. -/
theorem BxCanConfig.placesRight_of_fits_data : (bxcanData true).PlacesRight true :=
  BxCanConfig.placesRight_of_fits true (bxcanData true) ⟨by decide, by decide⟩ (by decide)

/-- Two 16-bit identifiers have handles, but **no bank**. -/
theorem BxCanConfig.not_placesRight : ¬ ∀ cl (c : BxCanConfig), c.Fits cl → c.PlacesRight cl := by
  intro h
  have hfits : BxCanConfig.Fits true ⟨28, 7, fun _ => ⟨0, 0, 0, 2⟩⟩ := ⟨by decide, by decide⟩
  obtain ⟨bank, off, hplace, -, hfor⟩ := (h true _ hfits).place false .id16bit 0
    ⟨by decide, by decide⟩
  cases show some (0, 0) = some (bank, off) from hplace
  exact absurd (hfor ⟨0, 0, 0, 0, fun _ => 0⟩).2.1 (by decide)

end RtThread
