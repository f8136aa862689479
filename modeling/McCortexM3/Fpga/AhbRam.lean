import McCortexM3.AccessHistory
import McCortexM3.Run
import Mathlib.Tactic.IntervalCases

/-!
# The AHB-to-RAM bridge `ahb2ram.v`

The bridge serves the MCU's AHB transfers from port A of a synchronous dual-port RAM
and exposes port B to user logic.  Each `always` block of the source is one function
from the old registers to the new value of its register.  A 32-bit bus is its four byte
lanes.

The AHB master is modelled by what the protocol lets it do.  The transfer whose address
phase it presents is accepted at a clock edge that finds `hready_out` high; until then the
master holds it.  A transfer is aligned and at most a word wide.  Its data phase begins
with the next cycle and ends at the next edge that finds `hready_out` high.

## Main definitions

* `RamTwoPort` — the instantiated RAM, with new data forwarded on the written lanes of
  port A and no promise for the others.
* `Ahb2ram`, `posedgeHclk`, `posedgeUsrClk` — the registers and the two clocks.
* `Sys`, `step` — the bridge with its master, one instant at which clocks rise.

## Main results

* `inv_hclk` — one edge of `hclk` keeps the invariant of the pipeline.
* `run_behavesAsMemory` — as long as port B does not write, the bridge is a
  byte-addressed memory.
-/

set_option linter.all false

namespace Fpga

open Option List Nat Access

/-- A 32-bit word as its byte lanes, the least significant first. -/
abbrev Word := Fin 4 → BitVec 8

/-! ### The RAM -/

/-- `ram_two_port`: 4096 words and the output register of port A. -/
structure RamTwoPort where
  mem : BitVec 12 → Word
  qA : Word

namespace RamTwoPort

/-- A rising edge of `clock_a`.  On a write, `q_a` shows the new data on the enabled lanes
and anything (`junk`) on the others (`NEW_DATA_NO_NBE_READ`). -/
def clockA (addressA : BitVec 12) (byteenaA : BitVec 4) (dataA : Word) (wrenA : Bool)
    (junk : Word) (r : RamTwoPort) : RamTwoPort where
  mem := if wrenA then
      Function.update r.mem addressA fun i =>
        if byteenaA.getLsbD i then dataA i else r.mem addressA i
    else r.mem
  qA := if wrenA then fun i => if byteenaA.getLsbD i then dataA i else junk i
    else r.mem addressA

/-- A rising edge of `clock_b`. -/
def clockB (addressB : BitVec 12) (dataB : Word) (wrenB : Bool) (r : RamTwoPort) :
    RamTwoPort :=
  { r with mem := if wrenB then Function.update r.mem addressB dataB else r.mem }

end RamTwoPort

/-! ### The bridge -/

/-- What the master drives on the bus in one cycle. -/
structure Bus where
  hwdata : Word
  haddr : BitVec 32
  hwrite : Bool
  hsize : BitVec 3
  hsel : Bool
  htrans : BitVec 2

/-- The registers of `ahb2ram`, with the RAM it instantiates. -/
structure Ahb2ram where
  hrdata : Word
  hreadyOut : Bool
  ramAddr : BitVec 12
  ramWren : Bool
  rdEnD1 : Bool
  rdEnD2 : Bool
  rdEnD3 : Bool
  byteena : BitVec 4
  usrAddressTmp1 : BitVec 12
  usrAddress : BitVec 12
  usrWrenTmp1 : Bool
  usrWren : Bool
  ram : RamTwoPort

namespace Ahb2ram

/-- The registers after `hresetn` was low; the RAM keeps its contents. -/
def reset (ram : RamTwoPort) : Ahb2ram where
  hrdata := fun _ => 0
  hreadyOut := true
  ramAddr := 0
  ramWren := false
  rdEnD1 := false
  rdEnD2 := false
  rdEnD3 := false
  byteena := 0b1111
  usrAddressTmp1 := 0
  usrAddress := 0
  usrWrenTmp1 := false
  usrWren := false
  ram := ram

/-- The lanes that a write of `hsize` to an address ending in `lo` enables. -/
def byteLanes (hsize : BitVec 3) (lo : BitVec 2) : BitVec 4 :=
  if hsize = 0b000 then
    if lo = 0b00 then 0b0001
    else if lo = 0b01 then 0b0010
    else if lo = 0b10 then 0b0100
    else 0b1000
  else if hsize = 0b001 then
    if lo.getLsbD 1 then 0b1100 else 0b0011
  else 0b1111

def byteenaNext (bus : Bus) (s : Ahb2ram) : BitVec 4 :=
  if bus.hsel && bus.htrans.getLsbD 1 && bus.hwrite then
    byteLanes bus.hsize (bus.haddr.extractLsb' 0 2)
  else s.byteena

def ramWrenNext (bus : Bus) : Bool :=
  if bus.hsel && bus.htrans.getLsbD 1 && bus.hwrite then true else false

def ramAddrNext (bus : Bus) (s : Ahb2ram) : BitVec 12 :=
  if bus.hsel then (bus.haddr.extractLsb' 2 11).setWidth 12 else s.ramAddr

/-- The wire `rd_en`. -/
def rdEn (bus : Bus) (s : Ahb2ram) : Bool :=
  bus.hsel && bus.htrans.getLsbD 1 && !bus.hwrite && s.hreadyOut

def hreadyOutNext (bus : Bus) (s : Ahb2ram) : Bool :=
  if s.rdEn bus && !s.rdEnD1 then false
  else if s.rdEnD2 && !s.rdEnD3 then true
  else s.hreadyOut

def hrdataNext (s : Ahb2ram) : Word :=
  if s.rdEnD2 then s.ram.qA else s.hrdata

/-- One rising edge of `hclk`. -/
def posedgeHclk (bus : Bus) (junk : Word) (s : Ahb2ram) : Ahb2ram :=
  { s with
    hrdata := s.hrdataNext
    hreadyOut := s.hreadyOutNext bus
    ramAddr := s.ramAddrNext bus
    ramWren := ramWrenNext bus
    rdEnD1 := s.rdEn bus
    rdEnD2 := s.rdEnD1
    rdEnD3 := s.rdEnD2
    byteena := s.byteenaNext bus
    ram := s.ram.clockA s.ramAddr s.byteena bus.hwdata s.ramWren junk }

/-- One rising edge of `usr_clk`, from the registers `old`.  The address goes through two
registers; the write enable is the complement of its own first register, into which the
12-bit `ram_addr` is truncated. -/
def posedgeUsrClk (old : Ahb2ram) (usrDataIn : Word) (s : Ahb2ram) : Ahb2ram :=
  { s with
    usrAddressTmp1 := old.ramAddr
    usrAddress := old.usrAddressTmp1
    usrWrenTmp1 := old.ramAddr.getLsbD 0
    usrWren := !old.usrWrenTmp1
    ram := s.ram.clockB old.usrAddress usrDataIn old.usrWren }

end Ahb2ram

/-! ### The master -/

/-- An active address phase. -/
@[ext] structure Phase where
  haddr : BitVec 32
  hwrite : Bool
  hsize : BitVec 3
  deriving DecidableEq


namespace Phase

/-- The transfer is at most a word wide and aligned to its size. -/
def Aligned (p : Phase) : Prop :=
  p.hsize.toNat ≤ 2 ∧ 2 ^ p.hsize.toNat ∣ p.haddr.toNat

instance (p : Phase) : Decidable p.Aligned := inferInstanceAs (Decidable (_ ∧ _))

/-- The transfer touches the byte `x` of the window that the bridge decodes. -/
def Covers (p : Phase) (x : ℕ) : Prop :=
  p.haddr.toNat % 8192 ≤ x ∧ x < p.haddr.toNat % 8192 + 2 ^ p.hsize.toNat

instance (p : Phase) (x : ℕ) : Decidable (p.Covers x) := inferInstanceAs (Decidable (_ ∧ _))

/-- The byte `x` travels on the lane `x % 4`. -/
def lanes (p : Phase) (data : Word) (x : ℕ) : Option (BitVec 8) :=
  if p.Covers x then some (data (Fin.ofNat 4 x)) else none

/-- The completed transfer. -/
def access (p : Phase) (hwdata hrdata : Word) : Access ℕ (BitVec 8) :=
  if p.hwrite then .write (p.lanes hwdata) else .read (p.lanes hrdata)

end Phase

/-- The address phase on the bus, if there is an active one. -/
def Bus.phase (bus : Bus) : Option Phase :=
  if bus.hsel && bus.htrans.getLsbD 1 then some ⟨bus.haddr, bus.hwrite, bus.hsize⟩ else none

/-- The bridge and its master: the transfer in its data phase, and the address phase that
the master has presented in a wait cycle and must hold. -/
structure Sys where
  bridge : Ahb2ram
  dataPhase : Option Phase
  held : Option Phase

namespace Sys

/-- The system after reset. -/
def reset (ram : RamTwoPort) : Sys := ⟨.reset ram, none, none⟩

/-- What the AHB protocol lets the master present. -/
def Legal (s : Sys) (bus : Bus) : Prop :=
  (s.held = none ∨ bus.phase = s.held) ∧ bus.phase.all (fun p => decide p.Aligned)

instance (s : Sys) (bus : Bus) : Decidable (s.Legal bus) :=
  inferInstanceAs (Decidable ((_ ∨ _) ∧ _))

/-- The transfer that completes at a rising edge of `hclk`. -/
def completed (s : Sys) (bus : Bus) : List (Access ℕ (BitVec 8)) :=
  if s.bridge.hreadyOut then
    (s.dataPhase.map fun p => p.access bus.hwdata s.bridge.hrdata).toList
  else []

/-- One rising edge of `hclk`. -/
def hclk (bus : Bus) (junk : Word) (s : Sys) : Sys where
  bridge := s.bridge.posedgeHclk bus junk
  dataPhase := if s.bridge.hreadyOut then bus.phase else s.dataPhase
  held := if s.bridge.hreadyOut then none else bus.phase

/-- One rising edge of `usr_clk` at the instant at which the registers were those of `old`. -/
def usrClk (old : Sys) (usrDataIn : Word) (s : Sys) : Sys :=
  { s with bridge := old.bridge.posedgeUsrClk usrDataIn s.bridge }

end Sys

/-- An instant: which of the two clocks rises, and what is on the inputs. -/
inductive Edge
  | hclk (bus : Bus) (junk : Word)
  | usrClk (usrDataIn : Word)
  | both (bus : Bus) (junk : Word) (usrDataIn : Word)

namespace Sys

/-- One instant of a run, with the transfers it completes. -/
def step (s : Sys) : Edge → Option (Sys × List (Access ℕ (BitVec 8)))
  | .hclk bus junk =>
    if s.Legal bus then some (s.hclk bus junk, s.completed bus) else none
  | .usrClk usrDataIn => some (s.usrClk usrDataIn s, [])
  | .both bus junk usrDataIn =>
    if s.Legal bus then some (s.usrClk usrDataIn (s.hclk bus junk), s.completed bus) else none

/-- No rising edge of `usr_clk` finds the derived write enable of port B high. -/
def PortBSilent (s : Sys) : Edge → Prop
  | .hclk _ _ => True
  | .usrClk _ => s.bridge.usrWren = false
  | .both _ _ _ => s.bridge.usrWren = false

instance (s : Sys) (e : Edge) : Decidable (s.PortBSilent e) := by
  cases e <;> unfold PortBSilent <;> infer_instance

/-- The byte `x` of the RAM. -/
def byteAt (mem : BitVec 12 → Word) (x : ℕ) : BitVec 8 :=
  mem (BitVec.ofNat 12 (x / 4)) (Fin.ofNat 4 x)

/-- What the bridge shows after a run from a RAM with contents `mem`: every read carries
the bytes most recently written, and a byte that no write is under way to holds what was
last written to it. -/
structure BehavesAsMemory (mem : BitVec 12 → Word) (tr : List (Access ℕ (BitVec 8)))
    (s : Sys) : Prop where
  reads : Consistent (byteAt mem) tr
  bytes : ∀ x < 16384,
    (∀ p, s.dataPhase = some p ∨ s.held = some p → p.hwrite = true → ¬ p.Covers x) →
      byteAt s.bridge.ram.mem x = contents (byteAt mem) tr x

/-! ### Bytes and lanes -/

theorem byteAt_clockA (addressA : BitVec 12) (byteenaA : BitVec 4) (dataA : Word)
    (wrenA : Bool) (junk : Word) (r : RamTwoPort) {x : ℕ} (hx : x < 16384) :
    byteAt (r.clockA addressA byteenaA dataA wrenA junk).mem x =
      if wrenA = true ∧ addressA.toNat = x / 4 ∧ byteenaA.getLsbD (x % 4) = true then
        dataA (Fin.ofNat 4 x)
      else byteAt r.mem x := by
  have haddr : BitVec.ofNat 12 (x / 4) = addressA ↔ addressA.toNat = x / 4 := by
    rw [← BitVec.toNat_inj, BitVec.toNat_ofNat, mod_eq_of_lt (by omega), eq_comm]
  have hlane : byteenaA.getLsbD (x % 4) = byteenaA[x % 4] :=
    BitVec.getLsbD_eq_getElem (mod_lt _ (by omega))
  cases wrenA with
  | false => simp [byteAt, RamTwoPort.clockA]
  | true =>
    by_cases ha : addressA.toNat = x / 4
    · simp [byteAt, RamTwoPort.clockA, haddr.2 ha, ha, hlane]
    · simp [byteAt, RamTwoPort.clockA, Function.update_of_ne (mt haddr.1 ha), ha]

theorem byteLanes_getLsbD : ∀ (hsize : BitVec 3) (lo : BitVec 2) (i : Fin 4), hsize.toNat ≤ 2 →
    ((Ahb2ram.byteLanes hsize lo).getLsbD i = true ↔
      i.val / 2 ^ hsize.toNat = lo.toNat / 2 ^ hsize.toNat) := by
  decide

variable {p : Phase} {bus : Bus}

theorem covers_iff (h : p.Aligned) (x : ℕ) :
    p.Covers x ↔ p.haddr.toNat / 4 % 2048 = x / 4 ∧
      x % 4 / 2 ^ p.hsize.toNat = p.haddr.toNat % 4 / 2 ^ p.hsize.toNat := by
  obtain ⟨hsize, hdvd⟩ := h
  unfold Phase.Covers
  generalize p.haddr.toNat = a at *
  generalize p.hsize.toNat = n at *
  interval_cases n <;> omega

theorem phase_eq_some :
    bus.phase = some p ↔ (bus.hsel = true ∧ bus.htrans.getLsbD 1 = true) ∧
      bus.haddr = p.haddr ∧ bus.hwrite = p.hwrite ∧ bus.hsize = p.hsize := by
  rw [Bus.phase]
  split <;> simp_all [Phase.ext_iff]

theorem ramAddrNext_toNat (h : bus.phase = some p) (s : Ahb2ram) :
    (s.ramAddrNext bus).toNat = p.haddr.toNat / 4 % 2048 := by
  obtain ⟨⟨hsel, -⟩, haddr, -, -⟩ := phase_eq_some.1 h
  rw [Ahb2ram.ramAddrNext, if_pos hsel, haddr, BitVec.toNat_setWidth, BitVec.extractLsb'_toNat,
    shiftRight_eq_div_pow]
  omega

/-- Port A is about to write the byte `x`. -/
def Writing (s : Ahb2ram) (x : ℕ) : Prop :=
  s.ramWren = true ∧ s.ramAddr.toNat = x / 4 ∧ s.byteena.getLsbD (x % 4) = true

/-- A write presented on the bus is what port A is about to write after the edge. -/
theorem writing_posedgeHclk (h : bus.phase = some p)
    (hw : p.hwrite = true) (hal : p.Aligned) (junk : Word) (s : Ahb2ram) (x : ℕ) :
    Writing (s.posedgeHclk bus junk) x ↔ p.Covers x := by
  obtain ⟨⟨hsel, htrans⟩, haddr, hwrite, hsize⟩ := phase_eq_some.1 h
  have hact : (bus.hsel && bus.htrans.getLsbD 1 && bus.hwrite) = true := by
    rw [hsel, htrans, hwrite, hw]
    rfl
  have hwren : (s.posedgeHclk bus junk).ramWren = true := by
    change Ahb2ram.ramWrenNext bus = true
    rw [Ahb2ram.ramWrenNext, if_pos hact]
  have hena : (s.posedgeHclk bus junk).byteena
      = Ahb2ram.byteLanes p.hsize (p.haddr.extractLsb' 0 2) := by
    change s.byteenaNext bus = _
    rw [Ahb2ram.byteenaNext, if_pos hact, hsize, haddr]
  have hadr : (s.posedgeHclk bus junk).ramAddr.toNat = p.haddr.toNat / 4 % 2048 :=
    ramAddrNext_toNat h s
  have hlo : (p.haddr.extractLsb' 0 2).toNat = p.haddr.toNat % 4 := by
    rw [BitVec.extractLsb'_toNat, shiftRight_zero]
  have hlane := byteLanes_getLsbD p.hsize (p.haddr.extractLsb' 0 2)
    ⟨x % 4, mod_lt _ (by omega)⟩ hal.1
  rw [Writing, covers_iff hal, hwren, hadr, hena, hlane, hlo]
  exact and_iff_right rfl

theorem ramWren_posedgeHclk {junk : Word} {s : Ahb2ram}
    (h : (s.posedgeHclk bus junk).ramWren = true) :
    ∃ p, bus.phase = some p ∧ p.hwrite = true := by
  change Ahb2ram.ramWrenNext bus = true at h
  rw [Ahb2ram.ramWrenNext] at h
  split at h
  · next hact =>
    simp only [Bool.and_eq_true] at hact
    exact ⟨⟨bus.haddr, bus.hwrite, bus.hsize⟩, phase_eq_some.2 ⟨hact.1, rfl, rfl, rfl⟩, hact.2⟩
  · cases h

theorem rdEn_eq_true {s : Ahb2ram} :
    s.rdEn bus = true ↔ s.hreadyOut = true ∧ ∃ p, bus.phase = some p ∧ p.hwrite = false := by
  simp only [Ahb2ram.rdEn, Bool.and_eq_true, Bool.not_eq_true']
  constructor
  · rintro ⟨⟨hact, hw⟩, hr⟩
    exact ⟨hr, ⟨bus.haddr, bus.hwrite, bus.hsize⟩, phase_eq_some.2 ⟨hact, rfl, rfl, rfl⟩, hw⟩
  · rintro ⟨hr, p, hp, hw⟩
    obtain ⟨hact, -, hwrite, -⟩ := phase_eq_some.1 hp
    exact ⟨⟨hact, hwrite.trans hw⟩, hr⟩

theorem Legal.aligned {s : Sys} (h : s.Legal bus) (hp : bus.phase = some p) : p.Aligned := by
  simpa [hp] using h.2

theorem Legal.held {s : Sys} (h : s.Legal bus) (hp : s.held = some p) : bus.phase = some p := by
  rcases h.1 with hn | heq
  · rw [hp] at hn
    cases hn
  · rw [heq, hp]

/-! ### The pipeline -/

/-- The invariant of the pipeline.  A read spends one wait cycle with its address on
port A (`rd_en_d1`), a second with its word on `q_a` (`rd_en_d2`), and ends with it in
`hrdata`.  Port A is about to write the bytes of the write in its data phase or, too
early, those of a held one. -/
structure Inv (mem : BitVec 12 → Word) (tr : List (Access ℕ (BitVec 8))) (s : Sys) : Prop where
  reads : Consistent (byteAt mem) tr
  bytes : ∀ x < 16384, ¬ Writing s.bridge x → byteAt s.bridge.ram.mem x = contents (byteAt mem) tr x
  aligned : ∀ p, s.dataPhase = some p → p.Aligned
  selected : s.bridge.ramWren = true → ∃ p, (s.dataPhase = some p ∨ s.held = some p) ∧
    p.hwrite = true ∧ ∀ x, Writing s.bridge x ↔ p.Covers x
  dataWrite : ∀ p, s.dataPhase = some p → p.hwrite = true →
    s.bridge.hreadyOut = true ∧ ∀ x, Writing s.bridge x ↔ p.Covers x
  ready : s.bridge.hreadyOut = true → s.bridge.rdEnD1 = false ∧ s.bridge.rdEnD2 = false ∧
    ∀ p, s.dataPhase = some p → p.hwrite = false → ∀ x, p.Covers x →
      s.bridge.hrdata (Fin.ofNat 4 x) = contents (byteAt mem) tr x
  wait : s.bridge.hreadyOut = false → s.bridge.rdEnD3 = false ∧
    ∃ p, s.dataPhase = some p ∧ p.hwrite = false ∧
      ((s.bridge.rdEnD1 = true ∧ s.bridge.rdEnD2 = false ∧ s.bridge.ramWren = false ∧
          s.bridge.ramAddr.toNat = p.haddr.toNat / 4 % 2048) ∨
        (s.bridge.rdEnD1 = false ∧ s.bridge.rdEnD2 = true ∧ ∀ x, p.Covers x →
          s.bridge.ram.qA (Fin.ofNat 4 x) = contents (byteAt mem) tr x))

variable {mem : BitVec 12 → Word} {tr : List (Access ℕ (BitVec 8))} {s : Sys} {bus : Bus}

theorem inv_reset (ram : RamTwoPort) : Inv ram.mem [] (reset ram) := by
  refine ⟨consistent_nil _, fun _ _ _ => rfl, ?_, ?_, ?_, fun _ => ⟨rfl, rfl, ?_⟩, ?_⟩
  · rintro p ⟨⟩
  · rintro ⟨⟩
  · rintro p ⟨⟩
  · rintro p ⟨⟩
  · rintro ⟨⟩

theorem byteAt_posedgeHclk (junk : Word) (s : Ahb2ram) (bus : Bus) {x : ℕ} (hx : x < 16384)
    [Decidable (Writing s x)] :
    byteAt (s.posedgeHclk bus junk).ram.mem x =
      if Writing s x then bus.hwdata (Fin.ofNat 4 x) else byteAt s.ram.mem x := by
  change byteAt (s.ram.clockA s.ramAddr s.byteena bus.hwdata s.ramWren junk).mem x = _
  rw [byteAt_clockA _ _ _ _ _ _ hx]
  exact if_congr Iff.rfl rfl rfl

/-- An edge at which no write is in its data phase changes only bytes of a held write. -/
theorem bytes_hclk (h : Inv mem tr s) (hl : s.Legal bus) (junk : Word)
    (hd : ∀ p, s.dataPhase = some p → p.hwrite = false) {x : ℕ} (hx : x < 16384)
    (hn : ¬ Writing (s.bridge.posedgeHclk bus junk) x) :
    byteAt (s.bridge.posedgeHclk bus junk).ram.mem x = contents (byteAt mem) tr x := by
  classical
  have hold : ¬ Writing s.bridge x := by
    intro hw
    obtain ⟨p, hp | hp, hpw, hsel⟩ := h.selected hw.1
    · simp [hd p hp] at hpw
    · have hbus := hl.held hp
      exact hn ((writing_posedgeHclk hbus hpw (hl.aligned hbus) junk _ x).2 ((hsel x).1 hw))
  rw [byteAt_posedgeHclk junk _ _ hx, if_neg hold]
  exact h.bytes x hx hold

theorem bytes_hclk_write (h : Inv mem tr s) (junk : Word) {p : Phase}
    (hp : s.dataPhase = some p) (hw : p.hwrite = true) {x : ℕ} (hx : x < 16384) :
    byteAt (s.bridge.posedgeHclk bus junk).ram.mem x =
      (p.lanes bus.hwdata x).getD (contents (byteAt mem) tr x) := by
  classical
  have hsel := (h.dataWrite p hp hw).2 x
  rw [byteAt_posedgeHclk junk _ _ hx, Phase.lanes]
  by_cases hc : p.Covers x
  · rw [if_pos (hsel.2 hc), if_pos hc]
    rfl
  · rw [if_neg (mt hsel.1 hc), if_neg hc]
    exact h.bytes x hx (mt hsel.1 hc)

theorem history_hclk (h : Inv mem tr s) (hl : s.Legal bus) (junk : Word) :
    Consistent (byteAt mem) (tr ++ s.completed bus) ∧
    ∀ x < 16384, ¬ Writing (s.bridge.posedgeHclk bus junk) x →
      byteAt (s.bridge.posedgeHclk bus junk).ram.mem x
        = contents (byteAt mem) (tr ++ s.completed bus) x := by
  cases hr : s.bridge.hreadyOut with
  | false =>
    -- a wait cycle completes nothing
    obtain ⟨-, p, hp, hpw, -⟩ := h.wait hr
    have hd : ∀ q, s.dataPhase = some q → q.hwrite = false := by
      rintro q hq
      obtain rfl : p = q := by simpa [hp] using hq
      exact hpw
    simp only [completed, hr, Bool.false_eq_true, if_false, append_nil]
    exact ⟨h.reads, fun x hx hn => bytes_hclk h hl junk hd hx hn⟩
  | true =>
    cases hp : s.dataPhase with
    | none =>
      simp only [completed, hr, hp, if_true, map_none, toList_none, append_nil]
      exact ⟨h.reads, fun x hx hn => bytes_hclk h hl junk (by simp [hp]) hx hn⟩
    | some p =>
      cases hw : p.hwrite with
      | true =>
        simp only [completed, hr, hp, Phase.access, hw, if_true, map_some,
          toList_some, contents_append_write]
        refine ⟨h.reads.snoc ?_, fun x hx _ => bytes_hclk_write h junk hp hw hx⟩
        rintro data ⟨⟩
      | false =>
        -- the read returns the registered word of the RAM
        simp only [completed, hr, hp, Phase.access, hw, Bool.false_eq_true, if_true, if_false,
          map_some, toList_some, contents_append_read]
        constructor
        · apply h.reads.snoc
          rintro data ⟨⟩ x v hv
          obtain ⟨hc, rfl⟩ : p.Covers x ∧ s.bridge.hrdata (Fin.ofNat 4 x) = v := by
            simpa [Phase.lanes] using hv
          exact (h.ready hr).2.2 p hp hw x hc
        · have hd : ∀ q, s.dataPhase = some q → q.hwrite = false := by
            rintro q hq
            obtain rfl : p = q := by simpa [hp] using hq
            exact hw
          exact fun x hx hn => bytes_hclk h hl junk hd hx hn

/-- An edge that finds `hready_out` high starts the data phase of what is on the bus. -/
theorem inv_hclk_ready (h : Inv mem tr s) (hl : s.Legal bus) (junk : Word)
    (hr : s.bridge.hreadyOut = true) :
    Inv mem (tr ++ s.completed bus) (s.hclk bus junk) := by
  obtain ⟨hreads, hbytes⟩ := history_hclk h hl junk
  obtain ⟨hd1, hd2, -⟩ := h.ready hr
  have hdata : (s.hclk bus junk).dataPhase = bus.phase := by simp [hclk, hr]
  have hready : (s.bridge.posedgeHclk bus junk).hreadyOut = !s.bridge.rdEn bus := by
    change s.bridge.hreadyOutNext bus = _
    cases hrd : s.bridge.rdEn bus <;> simp [Ahb2ram.hreadyOutNext, hrd, hd1, hd2, hr]
  have hread : ∀ p, bus.phase = some p → (p.hwrite = false ↔ s.bridge.rdEn bus = true) := by
    intro p hp
    rw [rdEn_eq_true]
    exact ⟨fun hw => ⟨hr, p, hp, hw⟩, fun ⟨_, q, hq, hw⟩ => by
      obtain rfl : p = q := by simpa [hp] using hq
      exact hw⟩
  refine ⟨hreads, hbytes, ?_, ?_, ?_, ?_, ?_⟩
  · intro p hp
    exact hl.aligned (hdata ▸ hp)
  · intro hwren
    obtain ⟨p, hp, hw⟩ := ramWren_posedgeHclk hwren
    exact ⟨p, Or.inl (hdata.trans hp), hw, writing_posedgeHclk hp hw (hl.aligned hp) junk _⟩
  · intro p hp hw
    rw [hdata] at hp
    refine ⟨?_, writing_posedgeHclk hp hw (hl.aligned hp) junk _⟩
    have hnrd : ¬ s.bridge.rdEn bus = true := fun hrd => by
      simp [(hread p hp).2 hrd] at hw
    exact hready.trans (by simpa using hnrd)
  · intro hr'
    have hnrd : s.bridge.rdEn bus = false := by simpa using hready.symm.trans hr'
    refine ⟨hnrd, hd1, ?_⟩
    intro p hp hw
    rw [hdata] at hp
    simp [(hread p hp).1 hw] at hnrd
  · intro hr'
    have hrd : s.bridge.rdEn bus = true := by simpa using hready.symm.trans hr'
    obtain ⟨-, p, hp, hw⟩ := rdEn_eq_true.1 hrd
    refine ⟨hd2, p, hdata.trans hp, hw, Or.inl ⟨hrd, hd1, ?_, ramAddrNext_toNat hp _⟩⟩
    by_contra hne
    have hwren : (s.bridge.posedgeHclk bus junk).ramWren = true := Bool.eq_true_of_not_eq_false hne
    obtain ⟨q, hq, hqw⟩ := ramWren_posedgeHclk hwren
    obtain rfl : p = q := by simpa [hp] using hq
    simp [hw] at hqw

theorem inv_hclk_wait (h : Inv mem tr s) (hl : s.Legal bus) (junk : Word)
    (hr : s.bridge.hreadyOut = false) :
    Inv mem (tr ++ s.completed bus) (s.hclk bus junk) := by
  obtain ⟨hreads, hbytes⟩ := history_hclk h hl junk
  obtain ⟨hd3, p, hp, hw, hstage⟩ := h.wait hr
  have hout : s.completed bus = [] := by simp [completed, hr]
  have hdata : (s.hclk bus junk).dataPhase = some p := by simp [hclk, hr, hp]
  have hheld : (s.hclk bus junk).held = bus.phase := by simp [hclk, hr]
  have hnrd : s.bridge.rdEn bus = false := by simp [Ahb2ram.rdEn, hr]
  have hready : (s.bridge.posedgeHclk bus junk).hreadyOut = s.bridge.rdEnD2 := by
    change s.bridge.hreadyOutNext bus = _
    cases hd2 : s.bridge.rdEnD2 <;> simp [Ahb2ram.hreadyOutNext, hnrd, hd2, hd3, hr]
  rw [hout, append_nil] at hreads hbytes ⊢
  refine ⟨hreads, hbytes, ?_, ?_, ?_, ?_, ?_⟩
  · intro q hq
    obtain rfl : p = q := by simpa [hdata] using hq
    exact h.aligned p hp
  · intro hwren
    obtain ⟨q, hq, hqw⟩ := ramWren_posedgeHclk hwren
    exact ⟨q, Or.inr (hheld.trans hq), hqw, writing_posedgeHclk hq hqw (hl.aligned hq) junk _⟩
  · intro q hq hqw
    obtain rfl : p = q := by simpa [hdata] using hq
    simp [hw] at hqw
  · intro hr'
    have hd2 : s.bridge.rdEnD2 = true := hready.symm.trans hr'
    rcases hstage with ⟨-, hd2', -⟩ | ⟨hd1, -, hq⟩
    · simp [hd2] at hd2'
    · refine ⟨hnrd, hd1, ?_⟩
      intro q hq' _ x hx
      obtain rfl : p = q := by simpa [hdata] using hq'
      change s.bridge.hrdataNext _ = _
      rw [Ahb2ram.hrdataNext, if_pos hd2]
      exact hq x hx
  · intro hr'
    have hd2 : s.bridge.rdEnD2 = false := hready.symm.trans hr'
    rcases hstage with ⟨hd1, -, hwren, haddr⟩ | ⟨-, hd2', -⟩
    · refine ⟨hd2, p, hdata, hw, Or.inr ⟨hnrd, hd1, ?_⟩⟩
      intro x hx
      -- the RAM samples the address of the read at this edge
      have hword := ((covers_iff (h.aligned p hp) x).1 hx).1
      have hx' : x < 16384 := by omega
      have hidx : BitVec.ofNat 12 (x / 4) = s.bridge.ramAddr := by
        apply BitVec.eq_of_toNat_eq
        rw [BitVec.toNat_ofNat, haddr, hword, mod_eq_of_lt (by omega)]
      have hbyte := h.bytes x hx' (by simp [Writing, hwren])
      rw [← hbyte, byteAt, hidx]
      simp [hclk, Ahb2ram.posedgeHclk, RamTwoPort.clockA, hwren]
    · simp [hd2] at hd2'

/-- **One edge of `hclk`** keeps the invariant. -/
theorem inv_hclk (h : Inv mem tr s) (hl : s.Legal bus) (junk : Word) :
    Inv mem (tr ++ s.completed bus) (s.hclk bus junk) := by
  cases hr : s.bridge.hreadyOut with
  | true => exact inv_hclk_ready h hl junk hr
  | false => exact inv_hclk_wait h hl junk hr

theorem inv_usrClk {old : Sys} (h : Inv mem tr s) (hb : old.bridge.usrWren = false)
    (usrDataIn : Word) : Inv mem tr (old.usrClk usrDataIn s) := by
  have hram : (old.usrClk usrDataIn s).bridge.ram = s.bridge.ram := by
    simp [usrClk, Ahb2ram.posedgeUsrClk, RamTwoPort.clockB, hb]
  refine ⟨h.reads, ?_, h.aligned, h.selected, h.dataWrite, h.ready, ?_⟩
  · intro x hx hn
    rw [hram]
    exact h.bytes x hx hn
  · rw [hram]
    exact h.wait

theorem inv_step {e : Edge} {s' : Sys} {out : List (Access ℕ (BitVec 8))}
    (h : Inv mem tr s) (hb : s.PortBSilent e) (hs : s.step e = some (s', out)) :
    Inv mem (tr ++ out) s' := by
  cases e with
  | hclk bus junk =>
    obtain ⟨hl, rfl, rfl⟩ : s.Legal bus ∧ s.hclk bus junk = s' ∧ s.completed bus = out := by
      simpa [step] using hs
    exact inv_hclk h hl junk
  | usrClk usrDataIn =>
    obtain ⟨rfl, rfl⟩ : s.usrClk usrDataIn s = s' ∧ [] = out := by simpa [step] using hs
    rw [append_nil]
    exact inv_usrClk h hb usrDataIn
  | both bus junk usrDataIn =>
    obtain ⟨hl, rfl, rfl⟩ :
        s.Legal bus ∧ s.usrClk usrDataIn (s.hclk bus junk) = s' ∧ s.completed bus = out := by
      simpa [step] using hs
    exact inv_usrClk (inv_hclk h hl junk) hb usrDataIn

/-- As long as no edge of `usr_clk` finds the derived write enable of port B high, the
bridge behaves **as a byte-addressed memory** after every run from reset. -/
theorem run_behavesAsMemory (ram : RamTwoPort) (tr : List (Access ℕ (BitVec 8))) (s : Sys)
    (hrun : Run step PortBSilent (reset ram) tr s) : BehavesAsMemory ram.mem tr s := by
  have hinv : Inv ram.mem tr s := hrun.invariant (Inv ram.mem) (inv_reset ram) inv_step
  refine ⟨hinv.reads, fun x hx hfree => hinv.bytes x hx fun hw => ?_⟩
  obtain ⟨p, hp, hpw, hsel⟩ := hinv.selected hw.1
  exact hfree p hp hpw ((hsel x).1 hw)

/-- A word write to address 0, and a word read of it, with idle cycles around. -/
def writeThenRead (data : Word) : List Edge :=
  let idle : Bus := ⟨data, 0, false, 0b010, true, 0b00⟩
  let write : Bus := { idle with hwrite := true, htrans := 0b10 }
  let read : Bus := { idle with htrans := 0b10 }
  [.both write data data, .hclk read data, .hclk idle data, .hclk idle data, .hclk idle data]

/-- In that run the user clock has risen once, when port B did not write. -/
theorem run_behavesAsMemory_writeThenRead :
    ∃ tr s, Run step PortBSilent (reset ⟨fun _ _ => 0, fun _ => 0⟩) tr s ∧ tr.length = 2 ∧
      BehavesAsMemory (fun _ _ => 0) tr s := by
  have hsome : ((exec step PortBSilent (reset ⟨fun _ _ => 0, fun _ => 0⟩)
      (writeThenRead fun _ => 1)).map fun r => r.2.length) = some 2 := by
    decide
  obtain ⟨⟨s, tr⟩, hexec, hlen⟩ := map_eq_some_iff.1 hsome
  have hrun := Run.of_exec hexec
  exact ⟨tr, s, hrun, hlen, run_behavesAsMemory ⟨fun _ _ => 0, fun _ => 0⟩ tr s hrun⟩

/-- With the MCU idle, the second edge of `usr_clk` after reset writes `usr_data_in` to
address 0. -/
theorem not_behavesAsMemory_usrClk :
    ¬ ∀ tr s, Run step (fun _ _ => True) (reset ⟨fun _ _ => 0, fun _ => 0⟩) tr s →
      BehavesAsMemory (fun _ _ => 0) tr s := by
  intro h
  have hsome : ((exec step (fun _ _ => True) (reset ⟨fun _ _ => 0, fun _ => 0⟩)
      [.usrClk fun _ => 1, .usrClk fun _ => 1]).map fun r =>
        (r.1.dataPhase, r.1.held, byteAt r.1.bridge.ram.mem 0, r.2.length))
      = some (none, none, 1, 0) := by
    decide
  obtain ⟨⟨s, tr⟩, hexec, hr⟩ := map_eq_some_iff.1 hsome
  obtain ⟨hdata, hheld, hbyte, hlen⟩ :
      s.dataPhase = none ∧ s.held = none ∧ byteAt s.bridge.ram.mem 0 = 1 ∧ tr = [] := by
    simpa using hr
  have hmem := (h tr s (Run.of_exec hexec)).bytes 0 (by omega) (by simp [hdata, hheld])
  rw [hbyte, hlen] at hmem
  exact absurd hmem (by decide)

end Sys

end Fpga
