import McCortexM3.Fpga.Edges
import Mathlib.Data.List.Range

/-!
# The remote-reconfiguration state machine of `top.v`

`top.v` programs the remote-update core `remote_reconf` through `param`, `data_in`
and `write_param`, and starts a reconfiguration by raising `reconfig_lock`.  Every
register is clocked by `spi_clk` and cleared by `reset_n`; each `always` block of
the source is one function below, from the values of the registers before the edge
to the value of its register after it.  The inputs are `SWITCH` and the core's
`busy`, one sample an edge.

## Main definitions

* `Reconfig`, `posedge`, `after` — the registers, one clock edge, and the state after
  `n` edges from reset.
* `stepPair` — the `(param, data_in)` pair that the `param`/`data_in` block gives to a
  counter value.
* `pulses` — the counter values of the `write_param` pulses issued so far.

## Main results

* `pulses_after` — the pulses are one for each low phase of `busy`, at most eight, and
  carry the counter values `0, 1, 2, …` in order.
* `presents_after` — a pulse presents the pair of the step before its own.
-/

set_option linter.all false

namespace Fpga

open List Nat Edges

/-- The registers of the remote-update part of `top.v`. -/
structure Reconfig where
  reconfigD1 : Bool
  reconfigD2 : Bool
  reconfig : Bool
  reconfigCnt : BitVec 4
  reconfigLock : Bool
  counter : BitVec 4
  writeParam : Bool
  writeParamD : Bool
  readParam : Bool
  readParamD : Bool
  readSource : BitVec 2
  param : BitVec 3
  dataIn : BitVec 22
  deriving DecidableEq, Repr

namespace Reconfig

/-- The parameter `BOOT_ADDR` of `top.v`. -/
def bootAddr : BitVec 22 := 0x10000

/-- The parameter `USR_DEFADDR_DISEN` of `top.v`. -/
def usrDefaddrDisen : BitVec 22 := 0

/-- The registers after `reset_n` was low. -/
def reset : Reconfig where
  reconfigD1 := false
  reconfigD2 := false
  reconfig := false
  reconfigCnt := 0
  reconfigLock := false
  counter := 0
  writeParam := false
  writeParamD := false
  readParam := false
  readParamD := false
  readSource := 0
  param := 0
  dataIn := 0

/-- The wire `w_write_param`: the first cycle of a `write_param` phase. -/
def wWriteParam (s : Reconfig) : Bool := s.writeParam && !s.writeParamD

/-- The wire `w_read_param`: the first cycle of a `read_param` phase. -/
def wReadParam (s : Reconfig) : Bool := s.readParam && !s.readParamD

/-- `reconfig_cnt` counts the `reconfig` pulses and stops once its top bit is set. -/
def reconfigCntNext (s : Reconfig) : BitVec 4 :=
  if s.reconfigCnt[3] then s.reconfigCnt
  else if s.reconfig then s.reconfigCnt + 1
  else s.reconfigCnt

/-- `reconfig_lock` is set when the core is not busy and `reconfig_cnt` is full. -/
def reconfigLockNext (busy : Bool) (s : Reconfig) : Bool :=
  if !busy && s.reconfigCnt[3] then true else s.reconfigLock

/-- `counter` advances with every pulse to the core, up to `14`. -/
def counterNext (s : Reconfig) : BitVec 4 :=
  if s.counter = 0b1110 then s.counter
  else if s.wWriteParam || s.wReadParam then s.counter + 1
  else s.counter

/-- `write_param` is high after an edge that finds the core free and `counter` below 8. -/
def writeParamNext (busy : Bool) (s : Reconfig) : Bool :=
  if !busy && s.counter < 0b1000 then true else false

/-- `read_source` selects the read back once `counter` has reached 8. -/
def readSourceNext (s : Reconfig) : BitVec 2 :=
  if s.counter ≥ 0b1000 then 0b11 else 0b00

/-- `read_param` is high after an edge that finds the core free and `counter` in `[8, 14)`. -/
def readParamNext (busy : Bool) (s : Reconfig) : Bool :=
  if !busy && s.counter ≥ 0b1000 && s.counter < 0b1110 then true else false

/-- The pair that the `param`/`data_in` block assigns to a write step. -/
def stepPair (k : BitVec 4) : Option (BitVec 3 × BitVec 22) :=
  if k = 0b0000 then some (0b001, usrDefaddrDisen)
  else if k = 0b0001 then some (0b100, 0)
  else if k = 0b0010 then some (0b110, 0)
  else if k = 0b0011 then some (0b011, bootAddr)
  else none

/-- The `param`/`data_in` block: a write step latches its pair, the first two read steps
latch a parameter number only. -/
def paramDataNext (s : Reconfig) : BitVec 3 × BitVec 22 :=
  match (if s.wWriteParam then stepPair s.counter else none) with
  | some p => p
  | none =>
    if s.counter = 0b1000 && s.wReadParam then (0b001, s.dataIn)
    else if s.counter = 0b1001 && s.wReadParam then (0b100, s.dataIn)
    else (s.param, s.dataIn)

/-- One rising edge of `spi_clk` with `reset_n` high. -/
def posedge (switch busy : Bool) (s : Reconfig) : Reconfig where
  reconfigD1 := switch
  reconfigD2 := s.reconfigD1
  reconfig := s.reconfigD1 && !s.reconfigD2
  reconfigCnt := s.reconfigCntNext
  reconfigLock := s.reconfigLockNext busy
  counter := s.counterNext
  writeParam := s.writeParamNext busy
  writeParamD := s.writeParam
  readParam := s.readParamNext busy
  readParamD := s.readParam
  readSource := s.readSourceNext
  param := s.paramDataNext.1
  dataIn := s.paramDataNext.2

/-- The registers after `n` edges from reset; the edge `t` samples `switch t` and `busy t`. -/
def after (switch busy : ℕ → Bool) : ℕ → Reconfig
  | 0 => reset
  | n + 1 => (after switch busy n).posedge (switch n) (busy n)

/-- The counter values of the `write_param` pulses of the cycles `0, …, n`. -/
def pulses (switch busy : ℕ → Bool) : ℕ → List ℕ
  | 0 => if reset.wWriteParam then [reset.counter.toNat] else []
  | n + 1 =>
    pulses switch busy n ++
      if (after switch busy (n + 1)).wWriteParam then
        [(after switch busy (n + 1)).counter.toNat]
      else []

/-! ### Single edges -/

theorem getElem_three_iff (b : BitVec 4) : b[3] = true ↔ 8 ≤ b.toNat := by
  revert b
  decide

theorem toNat_succ {b : BitVec 4} (h : b.toNat < 15) : (b + 1).toNat = b.toNat + 1 := by
  rw [BitVec.toNat_add]
  exact mod_eq_of_lt (show b.toNat + 1 < 16 by omega)

theorem reconfigCntNext_toNat {s : Reconfig} (h : s.reconfigCnt.toNat ≤ 8) :
    s.reconfigCntNext.toNat = min 8 (s.reconfigCnt.toNat + s.reconfig.toNat) := by
  unfold reconfigCntNext
  by_cases h3 : s.reconfigCnt[3] = true
  · have := (getElem_three_iff _).1 h3
    rw [if_pos h3]
    omega
  · have hlt : ¬ 8 ≤ s.reconfigCnt.toNat := fun hle => h3 ((getElem_three_iff _).2 hle)
    rw [if_neg h3]
    cases s.reconfig with
    | false => simp [h]
    | true =>
      rw [if_pos rfl, toNat_succ (by omega), Bool.toNat_true]
      omega

/-- Below 8 no read pulse is up, so only a write pulse moves `counter`. -/
theorem counterNext_toNat_of_lt {s : Reconfig} (h : s.counter.toNat < 8)
    (hr : s.readParam = false) :
    s.counterNext.toNat = s.counter.toNat + s.wWriteParam.toNat := by
  have hne : s.counter ≠ 0b1110 := by
    rintro he
    rw [he] at h
    exact absurd h (by decide)
  rw [counterNext, if_neg hne, wReadParam, hr]
  cases s.wWriteParam with
  | false => simp
  | true => simpa using toNat_succ (b := s.counter) (by omega)

theorem counter_le_counterNext (s : Reconfig) (h : s.counter.toNat ≤ 14) :
    s.counter.toNat ≤ s.counterNext.toNat ∧ s.counterNext.toNat ≤ 14 := by
  unfold counterNext
  by_cases he : s.counter = 0b1110
  · simp [he]
  · have hne : s.counter.toNat ≠ 14 := fun h' => he (BitVec.eq_of_toNat_eq h')
    rw [if_neg he]
    split
    · rw [toNat_succ (by omega)]
      omega
    · omega

theorem writeParamNext_eq (busy : Bool) (s : Reconfig) :
    s.writeParamNext busy = (!busy && decide (s.counter.toNat < 8)) := by
  have hlt : s.counter < 8#4 ↔ s.counter.toNat < 8 := Iff.rfl
  cases busy <;> simp [writeParamNext, hlt]

theorem readParamNext_of_lt (busy : Bool) {s : Reconfig} (h : s.counter.toNat < 8) :
    s.readParamNext busy = false := by
  have hge : ¬ 8#4 ≤ s.counter := by
    change ¬ 8 ≤ s.counter.toNat
    omega
  simp [readParamNext, hge]

/-! ### The switch and the lock -/

section Run

variable (switch busy : ℕ → Bool)

/-- The state after `n + 2` edges has counted the rising edges of `SWITCH` of the first
`n` samples: the synchroniser and the edge register cost two edges. -/
theorem reconfigCnt_after (n : ℕ) :
    (after switch busy (n + 2)).reconfigD1 = switch (n + 1) ∧
    (after switch busy (n + 2)).reconfigD2 = switch n ∧
    (after switch busy (n + 2)).reconfig = risesAt switch n ∧
    (after switch busy (n + 2)).reconfigCnt.toNat = min 8 (rises switch n) := by
  induction n with
  | zero =>
    refine ⟨rfl, rfl, ?_, ?_⟩ <;> simp [after, posedge, reset, reconfigCntNext]
  | succ n ih =>
    obtain ⟨h1, h2, hr, hc⟩ := ih
    refine ⟨rfl, h1, ?_, ?_⟩
    · change ((after switch busy (n + 2)).reconfigD1 && !(after switch busy (n + 2)).reconfigD2) = _
      rw [h1, h2]
      rfl
    · change (after switch busy (n + 2)).reconfigCntNext.toNat = _
      rw [reconfigCntNext_toNat (by omega), hc, hr, rises_succ]
      omega

theorem reconfigCnt_eq (n : ℕ) :
    (after switch busy n).reconfigCnt.toNat = min 8 (rises switch (n - 2)) := by
  match n with
  | 0 => rfl
  | 1 => simp [after, posedge, reset, reconfigCntNext]
  | n + 2 => exact (reconfigCnt_after switch busy n).2.2.2

/-- The lock is set exactly when some earlier edge found the core free and the counter of
`SWITCH` edges full. -/
theorem reconfigLock_after (n : ℕ) :
    (after switch busy n).reconfigLock = true ↔
      ∃ t < n, busy t = false ∧ 8 ≤ rises switch (t - 2) := by
  induction n with
  | zero => simp [after, reset]
  | succ n ih =>
    have hcnt : (after switch busy n).reconfigCnt[3] = true ↔ 8 ≤ rises switch (n - 2) := by
      rw [getElem_three_iff, reconfigCnt_eq]
      omega
    change (after switch busy n).reconfigLockNext (busy n) = true ↔ _
    rw [exists_lt_succ_right, ← ih, ← hcnt, reconfigLockNext]
    cases busy n <;> cases (after switch busy n).reconfigCnt[3] <;> simp

/-! ### The write pulses -/

/-- `busy` was low at the edge before the state `n`. -/
def lowBefore : ℕ → Bool
  | 0 => false
  | n + 1 => !busy n

theorem risesAt_not (n : ℕ) : risesAt (fun t => !busy t) n = (!busy n && !lowBefore busy n) := by
  cases n <;> simp [lowBefore]

/-- What the registers of the step counter satisfy after `n` edges. -/
structure CounterInv (n : ℕ) (s : Reconfig) (ps : List ℕ) : Prop where
  counter_le : s.counter.toNat ≤ 14
  readParam_low : s.counter.toNat < 8 → s.readParam = false
  writeParam_eq : s.counter.toNat < 8 → s.writeParam = lowBefore busy n
  pulse_low : 8 ≤ s.counter.toNat → s.wWriteParam = false
  pulses_eq : ps = List.range (min 8 (rises (fun t => !busy t) n))
  issued : min 8 (s.counter.toNat + s.wWriteParam.toNat) = min 8 (rises (fun t => !busy t) n)

theorem wWriteParam_posedge {n : ℕ} {s : Reconfig} (sw : Bool) (h8 : s.counter.toNat < 8)
    (hw : s.writeParam = lowBefore busy n) :
    (s.posedge sw (busy n)).wWriteParam = risesAt (fun t => !busy t) n := by
  rw [risesAt_not, wWriteParam]
  simp only [posedge, writeParamNext_eq, hw, h8, decide_true, Bool.and_true]

theorem counterInv_posedge {n : ℕ} {s : Reconfig} {ps : List ℕ} (sw : Bool)
    (h : CounterInv busy n s ps) :
    CounterInv busy (n + 1) (s.posedge sw (busy n))
      (ps ++ if (s.posedge sw (busy n)).wWriteParam then
        [(s.posedge sw (busy n)).counter.toNat] else []) := by
  have hcle := counter_le_counterNext s h.counter_le
  have hcnt : (s.posedge sw (busy n)).counter = s.counterNext := rfl
  have hread : s.counterNext.toNat < 8 → (s.posedge sw (busy n)).readParam = false :=
    fun hlt => readParamNext_of_lt (busy n) (by omega)
  have hwrite : s.counterNext.toNat < 8 →
      (s.posedge sw (busy n)).writeParam = lowBefore busy (n + 1) := by
    intro hlt
    have h8 : s.counter.toNat < 8 := by omega
    simp [posedge, writeParamNext_eq, lowBefore, h8]
  have hiss := h.issued
  by_cases h8 : s.counter.toNat < 8
  · -- programming is under way: the new pulse is the low phase that begins at this edge
    have hpulse := wWriteParam_posedge busy sw h8 (h.writeParam_eq h8)
    have hadv := counterNext_toNat_of_lt h8 (h.readParam_low h8)
    have hrise := rises_succ (fun t => !busy t) n
    have hlast : s.counterNext.toNat = 8 → (s.posedge sw (busy n)).wWriteParam = false := by
      intro he
      have hw : s.wWriteParam = true := by
        cases hw : s.wWriteParam with
        | true => rfl
        | false => simp [hw] at hadv; omega
      have hwp : s.writeParam = true := by
        simp only [wWriteParam, Bool.and_eq_true] at hw
        exact hw.1
      simp [wWriteParam, posedge, hwp]
    have hbit : (s.posedge sw (busy n)).wWriteParam.toNat ≤ 1 := Bool.toNat_le _
    have hbit0 : s.wWriteParam.toNat ≤ 1 := Bool.toNat_le _
    refine ⟨hcle.2, hread, hwrite, ?_, ?_, ?_⟩
    · intro hge
      exact hlast (by rw [hcnt] at hge; omega)
    · rw [h.pulses_eq, hrise, ← hpulse, hcnt]
      cases hp : (s.posedge sw (busy n)).wWriteParam with
      | false => simp
      | true =>
        have hne : s.counterNext.toNat ≠ 8 := fun he => by simp [hlast he] at hp
        have hr : rises (fun t => !busy t) n = s.counterNext.toNat := by omega
        have hmin : min 8 (s.counterNext.toNat + 1) = s.counterNext.toNat + 1 := by omega
        have hmin' : min 8 s.counterNext.toNat = s.counterNext.toNat := by omega
        simp [hr, hmin, hmin', List.range_succ]
    · rw [hcnt, hrise, ← hpulse]
      cases hp : (s.posedge sw (busy n)).wWriteParam <;> simp <;> omega
  · -- programming is over: `write_param` stays low, or was high already
    have hlow : (s.posedge sw (busy n)).wWriteParam = false := by
      simp [wWriteParam, posedge, writeParamNext_eq, h8]
    have hrise : rises (fun t => !busy t) n ≤ rises (fun t => !busy t) (n + 1) := by
      rw [rises_succ]
      omega
    have h8' : 8 ≤ s.counterNext.toNat := by omega
    have hfull : min 8 (rises (fun t => !busy t) (n + 1)) = min 8 (rises (fun t => !busy t) n) := by
      omega
    refine ⟨hcle.2, hread, hwrite, fun _ => hlow, ?_, ?_⟩
    · rw [hlow, hfull, h.pulses_eq]
      simp
    · rw [hcnt, hlow, hfull]
      simp
      omega

theorem counterInv_after (n : ℕ) :
    CounterInv busy n (after switch busy n) (pulses switch busy n) := by
  induction n with
  | zero =>
    refine ⟨Nat.zero_le _, fun _ => rfl, fun _ => rfl, fun _ => rfl, ?_, ?_⟩ <;>
      simp [pulses, wWriteParam, reset, after]
  | succ n ih => exact counterInv_posedge busy (switch n) ih

theorem pulses_after (n : ℕ) :
    pulses switch busy n = List.range (min 8 (rises (fun t => !busy t) n)) :=
  (counterInv_after switch busy n).pulses_eq

theorem mem_pulses {n k : ℕ} :
    k ∈ pulses switch busy n ↔
      ∃ t ≤ n, (after switch busy t).wWriteParam = true ∧ (after switch busy t).counter.toNat = k := by
  induction n with
  | zero => simp [pulses, after, wWriteParam, reset]
  | succ n ih =>
    rw [pulses, mem_append, ih]
    constructor
    · rintro (⟨t, ht, hk⟩ | hk)
      · exact ⟨t, by omega, hk⟩
      · by_cases hw : (after switch busy (n + 1)).wWriteParam = true
        · rw [if_pos hw, mem_singleton] at hk
          exact ⟨n + 1, le_rfl, hw, hk.symm⟩
        · simp [if_neg hw] at hk
    · rintro ⟨t, ht, hw, hk⟩
      rcases Nat.lt_or_ge n t with hlt | hge
      · obtain rfl : t = n + 1 := by omega
        right
        simp [hw, hk]
      · exact Or.inl ⟨t, hge, hw, hk⟩

/-! ### What a pulse presents -/

/-- The pair latched by the steps below `k`: that of the last of them that has one. -/
def lastPair : ℕ → BitVec 3 × BitVec 22
  | 0 => (reset.param, reset.dataIn)
  | k + 1 => (stepPair (BitVec.ofNat 4 k)).getD (lastPair k)

/-- Up to the end of the programming, `param` and `data_in` hold the pair of the last
step: the edge that ends the pulse of a step latches the pair and advances `counter`. -/
theorem presents_after (n : ℕ) (h : (after switch busy n).counter.toNat < 8) :
    ((after switch busy n).param, (after switch busy n).dataIn)
      = lastPair (after switch busy n).counter.toNat := by
  induction n with
  | zero => rfl
  | succ n ih =>
    have hinv := counterInv_after switch busy n
    have hcle := counter_le_counterNext _ hinv.counter_le
    have h8 : (after switch busy n).counter.toNat < 8 := lt_of_le_of_lt hcle.1 h
    have hadv := counterNext_toNat_of_lt h8 (hinv.readParam_low h8)
    change (after switch busy n).paramDataNext = lastPair (after switch busy n).counterNext.toNat
    have hr : (after switch busy n).wReadParam = false := by
      simp [wReadParam, hinv.readParam_low h8]
    rw [hadv, paramDataNext, hr]
    cases hw : (after switch busy n).wWriteParam with
    | false => simpa using ih h8
    | true =>
      simp only [if_true, Bool.toNat_true, lastPair, BitVec.ofNat_toNat, BitVec.setWidth_eq]
      cases hp : stepPair (after switch busy n).counter with
      | some p => rfl
      | none => simpa using ih h8

/-! ### The programming protocol -/

/-- In the cycles `0, …, n` every pulse of a step presents the pair of that step, and once
`counter` has left the writing range each of the four steps has been presented so. -/
def ProgramsOwnPairs (n : ℕ) : Prop :=
  (∀ t ≤ n, (after switch busy t).wWriteParam = true →
    ∀ p, stepPair (after switch busy t).counter = some p →
      ((after switch busy t).param, (after switch busy t).dataIn) = p) ∧
  (8 ≤ (after switch busy n).counter.toNat → ∀ k : BitVec 4, k < 4 → ∃ t ≤ n,
    (after switch busy t).wWriteParam = true ∧ (after switch busy t).counter = k ∧
      stepPair k = some ((after switch busy t).param, (after switch busy t).dataIn))

theorem counter_eq_zero_of_busy {n : ℕ} (h : ∀ t < n, busy t = true) :
    (after switch busy n).counter.toNat = 0 ∧ (after switch busy n).wWriteParam = false := by
  have hrise : rises (fun t => !busy t) n = 0 := by
    rw [rises_eq_zero_iff]
    intro t ht
    simp [h t ht]
  have hiss := (counterInv_after switch busy n).issued
  rw [hrise] at hiss
  have hbit : (after switch busy n).wWriteParam.toNat = 0 := by omega
  exact ⟨by omega, by simpa using hbit⟩

/-- Since `param` and `data_in` are latched by the edge that ends a pulse, a run presents
every step's own pair in its pulse **exactly when the core is never free**, so that no
parameter is written at all. -/
theorem programsOwnPairs_iff (n : ℕ) : ProgramsOwnPairs switch busy n ↔ ∀ t < n, busy t = true := by
  constructor
  · rintro ⟨hown, -⟩ t ht
    by_contra hbusy
    have hrise : rises (fun t => !busy t) n ≠ 0 := by
      rw [Ne, rises_eq_zero_iff]
      intro hall
      have := hall t ht
      simp_all
    have hmem : 0 ∈ pulses switch busy n := by
      rw [pulses_after, mem_range]
      omega
    -- the first pulse finds the reset values
    obtain ⟨u, hu, hw, hc⟩ := (mem_pulses switch busy).1 hmem
    have hc0 : (after switch busy u).counter = 0 := BitVec.eq_of_toNat_eq hc
    have hpair := presents_after switch busy u (by omega)
    rw [hown u hu hw (0b001, usrDefaddrDisen) (by rw [hc0]; rfl), hc] at hpair
    exact absurd hpair (by decide)
  · intro h
    constructor
    · intro t ht hw
      rw [(counter_eq_zero_of_busy switch busy fun u hu => h u (by omega)).2] at hw
      exact absurd hw (by decide)
    · intro h8
      rw [(counter_eq_zero_of_busy switch busy h).1] at h8
      omega

/-- With the core free from reset on, the first pulse presents the reset values. -/
theorem not_programsOwnPairs_free : ¬ ProgramsOwnPairs (fun _ => false) (fun _ => false) 2 := by
  rintro ⟨hown, -⟩
  have h := hown 1 (by decide) (by decide) (0b001, usrDefaddrDisen) (by decide)
  exact absurd h (by decide)

end Run

end Reconfig

end Fpga
