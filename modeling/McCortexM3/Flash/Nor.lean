import Mathlib.Data.Nat.Basic

/-!
# A serial NOR flash chip

The chip is addressed by three bytes and answers the common single-bit commands.  An
erase sets a 4 KiB sector to `0xFF`; a program clears bits of at most one 256-byte page
and wraps inside it.  Both need the write-enable latch, start a write in progress during
which only the status register can be read, and drop the latch when they end.

## Main definitions

* `NorFlash`, `transfer` — the chip, and one chip-select transaction: the bytes sent to
  it, and the bytes it answers with.

## Main results

* `transfer_se`, `transfer_pp`, `transfer_read`, `transfer_rdsr` — the transactions on an
  idle chip, one lemma a command.
* `program_page` — a page programmed as a whole.
-/

set_option linter.all false

/-- A byte on the wire or in memory. -/
abbrev Byte := BitVec 8

/-- A NOR flash chip of `sectors` sectors: its cells, the write-enable latch and the
write-in-progress flag. -/
structure NorFlash (sectors : ℕ) where
  mem : ℕ → Byte
  wel : Bool
  wip : Bool

namespace NorFlash

open Nat

variable {sectors : ℕ}

/-- The bytes of a sector. -/
def sectorSize : ℕ := 4096

/-- The bytes of a page. -/
def pageSize : ℕ := 256

/-- The cell that three address bytes, the most significant first, select. -/
def cell (sectors : ℕ) (b2 b1 b0 : Byte) : ℕ :=
  (b2.toNat * 65536 + b1.toNat * 256 + b0.toNat) % (sectorSize * sectors)

/-- The sector of `a` erased. -/
def erase (a : ℕ) (mem : ℕ → Byte) (x : ℕ) : Byte :=
  if x / sectorSize = a / sectorSize then 0xFF else mem x

/-- `data` programmed from `a` on, wrapping inside the page of `a`. -/
def program (a : ℕ) (data : List Byte) (mem : ℕ → Byte) (x : ℕ) : Byte :=
  if x / pageSize = a / pageSize then
    match data[(x % pageSize + pageSize - a % pageSize) % pageSize]? with
    | some d => mem x &&& d
    | none => mem x
  else mem x

/-- One transaction: the chip after it, and the bytes it shifts out once `tx` is in.  The
status register is read until the write in progress, if there is one, has ended. -/
def transfer (c : NorFlash sectors) (tx : List Byte) : NorFlash sectors × (ℕ → Byte) :=
  match tx with
  | [] => (c, fun _ => 0xFF)
  | cmd :: args =>
    if cmd = 0x05 then
      ({ c with wel := c.wel && !c.wip, wip := false },
        fun _ => if c.wel && !c.wip then 0x02 else 0x00)
    else if c.wip then (c, fun _ => 0xFF)
    else if cmd = 0x06 then ({ c with wel := true }, fun _ => 0xFF)
    else if cmd = 0x04 then ({ c with wel := false }, fun _ => 0xFF)
    else
      match args with
      | b2 :: b1 :: b0 :: data =>
        if cmd = 0x03 then
          (c, fun i => c.mem ((cell sectors b2 b1 b0 + i) % (sectorSize * sectors)))
        else if cmd = 0x20 && c.wel then
          ({ c with mem := erase (cell sectors b2 b1 b0) c.mem, wip := true }, fun _ => 0xFF)
        else if cmd = 0x02 && c.wel && !data.isEmpty then
          ({ c with mem := program (cell sectors b2 b1 b0) data c.mem, wip := true }, fun _ => 0xFF)
        else (c, fun _ => 0xFF)
      | _ => (c, fun _ => 0xFF)

/-! ### The transactions on an idle chip -/

section

variable {c : NorFlash sectors} (h : c.wip = false)

include h

theorem transfer_wren : (c.transfer [0x06]).1 = { c with wel := true } := by
  simp [transfer, h]

theorem transfer_wrdi : (c.transfer [0x04]).1 = { c with wel := false } := by
  simp [transfer, h]

theorem transfer_read (b2 b1 b0 : Byte) :
    c.transfer [0x03, b2, b1, b0] =
      (c, fun i => c.mem ((cell sectors b2 b1 b0 + i) % (sectorSize * sectors))) := by
  simp [transfer, h]

theorem transfer_se (hw : c.wel = true) (b2 b1 b0 : Byte) :
    (c.transfer [0x20, b2, b1, b0]).1 =
      { c with mem := erase (cell sectors b2 b1 b0) c.mem, wip := true } := by
  simp [transfer, h, hw]

theorem transfer_pp (hw : c.wel = true) (b2 b1 b0 : Byte) {data : List Byte} (hd : data ≠ []) :
    (c.transfer (0x02 :: b2 :: b1 :: b0 :: data)).1 =
      { c with mem := program (cell sectors b2 b1 b0) data c.mem, wip := true } := by
  simp [transfer, h, hw, hd]

end

theorem transfer_rdsr (c : NorFlash sectors) :
    (c.transfer [0x05]).1 = { c with wel := c.wel && !c.wip, wip := false } := rfl

/-! ### Whole pages -/

theorem program_page {a : ℕ} (ha : a % pageSize = 0) {data : List Byte}
    (hd : data.length = pageSize) (mem : ℕ → Byte) (x : ℕ) :
    program a data mem x =
      if x / pageSize = a / pageSize then mem x &&& data.getD (x % pageSize) 0xFF
      else mem x := by
  have hlt : x % pageSize < data.length := by
    rw [hd]
    exact mod_lt _ (by decide)
  have hidx : (x % pageSize + pageSize - a % pageSize) % pageSize = x % pageSize := by
    rw [ha, Nat.sub_zero, add_mod_right, mod_mod]
  simp [program, hidx, List.getElem?_eq_getElem hlt]

end NorFlash
