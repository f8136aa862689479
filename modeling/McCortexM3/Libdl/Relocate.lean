import McCortexM3.ByteMemory
import Mathlib.Data.BitVec
import Mathlib.Tactic.IntervalCases

/-!
# Relocations of ARM modules

`dlmodule_relocate` of `arm.c` changes the word, or the two half-words of a Thumb branch, at the
place of a relocation.  It writes the second half-word of a branch through a pointer to words, eight
bytes behind the place.

## Main definitions

* `ThumbBranch` — a branch, as the architecture decodes it.
* `dlmoduleRelocate` — the function.
* `armElfValue` — the words that the ELF rules prescribe.
* `Relocates` — what a relocation is to leave.

## Main results

* `relocates_iff` — when it leaves that.
-/

set_option linter.all false

namespace RtThread

open Option Nat ByteMemory
open BitVec (eq_of_getLsbD_eq getLsbD_append getLsbD_extractLsb' ofBool toInt toNat_ofNat twoPow)

/-! ### Thumb branches -/

/-- A branch of two half-words: the bits that tell one kind from another, and `S:I1:I2:imm10:imm11:0`,
which is sign-extended. -/
structure ThumbBranch where
  kind : BitVec 5 × BitVec 2 × Bool
  offset : BitVec (1 + 1 + 1 + 10 + 11 + 1)

namespace ThumbBranch

/-- The branch in two half-words. -/
def decode (upper lower : BitVec 16) : ThumbBranch where
  kind := (upper.extractLsb' 11 5, lower.extractLsb' 14 2, lower.getLsbD 12)
  offset := ofBool (upper.getLsbD 10) ++
    ofBool (!(lower.getLsbD 13 ^^ upper.getLsbD 10)) ++
    ofBool (!(lower.getLsbD 11 ^^ upper.getLsbD 10)) ++ upper.extractLsb' 0 10 ++
    lower.extractLsb' 0 11 ++ 0#1

/-- The half-words of a branch. -/
def upper (b : ThumbBranch) : BitVec 16 :=
  b.kind.1 ++ ofBool (b.offset.getLsbD 24) ++ b.offset.extractLsb' 12 10
@[inherit_doc upper] def lower (b : ThumbBranch) : BitVec 16 :=
  b.kind.2.1 ++ ofBool (b.offset.getLsbD 24 ^^ !b.offset.getLsbD 23) ++
    ofBool b.kind.2.2 ++ ofBool (b.offset.getLsbD 24 ^^ !b.offset.getLsbD 22) ++
    b.offset.extractLsb' 1 11

/-- The target relative to the place, with the bit that says that it is Thumb code. -/
def target (b : ThumbBranch) (place : BitVec 32) : BitVec 32 := place + b.offset.signExtend 32 + 1

/-- The distance of the symbol with the addend of the branch. -/
def distance (b : ThumbBranch) (place symVal : BitVec 32) : BitVec 32 :=
  b.offset.signExtend 32 + (symVal - place)

/-- A branch of the same kind that goes so far. -/
def retarget (b : ThumbBranch) (x : BitVec 32) : ThumbBranch :=
  { b with offset := (x &&& ~~~1).setWidth _ }

end ThumbBranch

/-! ### The relocations -/

/-- The types of relocations that `dlmodule_relocate` knows. -/
inductive ArmReloc
  | none
  | pc24
  | abs32
  | rel32
  | thmCall
  | globDat
  | jumpSlot
  | relative
  | plt32
  | call
  | jump24
  | thmJump24
  | v4bx
  deriving DecidableEq

/-- The numbers of the types. -/
def ArmReloc.ofType (n : BitVec 8) : Option ArmReloc :=
  if n = 0 then some none else if n = 1 then some pc24 else if n = 2 then some abs32
  else if n = 3 then some rel32 else if n = 10 then some thmCall else if n = 21 then some globDat
  else if n = 22 then some jumpSlot else if n = 23 then some relative
  else if n = 27 then some plt32 else if n = 28 then some call else if n = 29 then some jump24
  else if n = 30 then some thmJump24 else if n = 40 then some v4bx else Option.none

/-- An `Elf32_Rel`. -/
structure Elf32Rel where
  rOffset : BitVec 32
  rInfo : BitVec 32

/-- The fields of a `struct rt_dlmodule` that are read. -/
structure DlModule where
  memSpace : BitVec 32
  vstartAddr : BitVec 32

/-- `ELF32_R_TYPE`. -/
def Elf32Rel.type (rel : Elf32Rel) : Option ArmReloc := ArmReloc.ofType (rel.rInfo.setWidth 8)

/-- `where`. -/
def DlModule.place (module : DlModule) (rel : Elf32Rel) : BitVec 32 :=
  module.memSpace + rel.rOffset - module.vstartAddr

/-- The half-word and the word at an address. -/
def halfAt (m : ℕ → UInt8) (a : ℕ) : BitVec 16 := .ofNat 16 (load m a 2)
@[inherit_doc halfAt] def wordAt (m : ℕ → UInt8) (a : ℕ) : BitVec 32 := .ofNat 32 (load m a 4)

/-- They are written. -/
def setHalfAt (m : ℕ → UInt8) (a : ℕ) (v : BitVec 16) : ℕ → UInt8 := store m a 2 v.toNat
@[inherit_doc setHalfAt] def setWordAt (m : ℕ → UInt8) (a : ℕ) (v : BitVec 32) : ℕ → UInt8 :=
  store m a 4 v.toNat

/-- The word of an ARM branch. -/
def branch24 (old symVal place : BitVec 32) : BitVec 32 :=
  let addend := old &&& 0x00ffffff
  let addend := if addend &&& 0x00800000 ≠ 0 then addend ||| 0xff000000 else addend
  let tmp := symVal - place + addend <<< 2
  let tmp := tmp >>> 2
  (old &&& 0xff000000) ||| (tmp &&& 0x00ffffff)

/-- `offset` of a Thumb branch: its fields, then with its sign, and then with the symbol. -/
def thmFields (upper lower : BitVec 32) : BitVec 32 :=
  let sign := (upper >>> 10) &&& 1
  let j1 := (lower >>> 13) &&& 1
  let j2 := (lower >>> 11) &&& 1
  (sign <<< 24) ||| ((~~~(j1 ^^^ sign) &&& 1) <<< 23) ||| ((~~~(j2 ^^^ sign) &&& 1) <<< 22) |||
    ((upper &&& 0x03ff) <<< 12) ||| ((lower &&& 0x07ff) <<< 1)
@[inherit_doc thmFields] def thmAddend (upper lower : BitVec 32) : BitVec 32 :=
  let offset := thmFields upper lower
  if offset &&& 0x01000000 ≠ 0 then offset - 0x02000000 else offset
@[inherit_doc thmFields] def thmOffset (m : ℕ → UInt8) (place symVal : BitVec 32) : BitVec 32 :=
  thmAddend ((halfAt m place.toNat).setWidth 32) ((halfAt m (place.toNat + 2)).setWidth 32) +
    (symVal - place)

/-- The half-words of a Thumb branch. -/
def thmUpper (upper offset : BitVec 32) : BitVec 16 :=
  let sign := (offset >>> 24) &&& 1
  ((upper &&& 0xf800) ||| (sign <<< 10) ||| ((offset >>> 12) &&& 0x03ff)).setWidth 16
@[inherit_doc thmUpper] def thmLower (lower offset : BitVec 32) : BitVec 16 :=
  let sign := (offset >>> 24) &&& 1
  let j1 := sign ^^^ (~~~(offset >>> 23) &&& 1)
  let j2 := sign ^^^ (~~~(offset >>> 22) &&& 1)
  ((lower &&& 0xd000) ||| (j1 <<< 13) ||| (j2 <<< 11) ||| ((offset >>> 1) &&& 0x07ff)).setWidth 16

/-- The case of the Thumb branches. -/
def thmRelocate (m : ℕ → UInt8) (place symVal : BitVec 32) : (ℕ → UInt8) × ℤ :=
  let upper := (halfAt m place.toNat).setWidth 32
  let lower := (halfAt m (place.toNat + 2)).setWidth 32
  let offset := thmOffset m place symVal
  if offset &&& 1 = 0 ∨ offset.toInt ≤ (0xff000000#32).toInt ∨ offset.toInt ≥ (0x01000000#32).toInt
    then (m, -1)
  else
    -- `where + 2` are two words, and not two bytes
    (setHalfAt (setHalfAt m place.toNat (thmUpper upper offset)) (place.toNat + 2 * 4)
      (thmLower lower offset), 0)

/-- `dlmodule_relocate`: the memory, and the result. -/
def dlmoduleRelocate (module : DlModule) (rel : Elf32Rel) (symVal : BitVec 32) (m : ℕ → UInt8) :
    (ℕ → UInt8) × ℤ :=
  let place := module.place rel
  let old := wordAt m place.toNat
  match rel.type with
  | some .none => (m, 0)
  | some .abs32 => (setWordAt m place.toNat (old + symVal), 0)
  | some .pc24 | some .plt32 | some .call | some .jump24 =>
    (setWordAt m place.toNat (branch24 old symVal place), 0)
  | some .rel32 => (setWordAt m place.toNat (old + (symVal - place)), 0)
  | some .v4bx => (setWordAt m place.toNat ((old &&& 0xf000000f) ||| 0x01a0f000), 0)
  | some .globDat | some .jumpSlot => (setWordAt m place.toNat symVal, 0)
  | some .relative => (setWordAt m place.toNat (symVal + old), 0)
  | some .thmCall | some .thmJump24 => thmRelocate m place symVal
  | none => (m, -1)

/-! ### The rules -/

/-- The word that the rules of the types prescribe: `S`, `S + A`, `S + A - P`, the offset of a branch
in its 24 bits, and `MOV PC, Rm` with the condition and the register of the instruction. -/
def armElfValue (type : ArmReloc) (old symVal place : BitVec 32) : BitVec 32 :=
  match type with
  | .abs32 | .relative => symVal + old
  | .rel32 => symVal + old - place
  | .globDat | .jumpSlot => symVal
  | .pc24 | .plt32 | .call | .jump24 =>
    old.extractLsb' 24 8 ++
      (symVal + (old.extractLsb' 0 24).signExtend 32 <<< 2 - place).extractLsb' 2 24
  | .v4bx => old.extractLsb' 28 4 ++ 0x1a0f00#24 ++ old.extractLsb' 0 4
  | .none | .thmCall | .thmJump24 => old

/-- No byte is changed but the `n` bytes from `a` on. -/
def OnlyChanges (m m' : ℕ → UInt8) (a n : ℕ) : Prop := ∀ x, x < a ∨ a + n ≤ x → m' x = m x

/-- The types of Thumb branches. -/
def ArmReloc.IsThumb (type : ArmReloc) : Prop := type = .thmCall ∨ type = .thmJump24

instance (type : ArmReloc) : Decidable type.IsThumb := inferInstanceAs (Decidable (_ ∨ _))

/-- What a relocation that is accepted is to leave: a branch of the same kind, whose target is the
symbol with the addend of the old one; or the word that is prescribed. -/
def Relocates (module : DlModule) (rel : Elf32Rel) (symVal : BitVec 32) (m : ℕ → UInt8) : Prop :=
  let place := module.place rel
  let a := place.toNat
  ∀ m' type, dlmoduleRelocate module rel symVal m = (m', 0) → rel.type = some type →
    OnlyChanges m m' a 4 ∧
      if type.IsThumb then
        let old := ThumbBranch.decode (halfAt m a) (halfAt m (a + 2))
        let new := ThumbBranch.decode (halfAt m' a) (halfAt m' (a + 2))
        new.kind = old.kind ∧ new.target place = symVal + old.offset.signExtend 32
      else wordAt m' a = armElfValue type (wordAt m a) symVal place

/-- The distance is that of Thumb code which a branch reaches. -/
def Reached (x : BitVec 32) : Prop :=
  x.getLsbD 0 = true ∧ -2 ^ 24 < x.toInt ∧ x.toInt < 2 ^ 24

/-- The second half-word of the branch to the symbol is there already, and eight bytes behind the
place too. -/
def StandsAlready (m : ℕ → UInt8) (place symVal : BitVec 32) : Prop :=
  let old := ThumbBranch.decode (halfAt m place.toNat) (halfAt m (place.toNat + 2))
  let lower := (old.retarget (old.distance place symVal)).lower
  halfAt m (place.toNat + 2) = lower ∧ halfAt m (place.toNat + 8) = lower

/-! ### The bits -/

section

variable {b b' : ThumbBranch} {x place symVal : BitVec 32} {m : ℕ → UInt8}

theorem xor_xor (a b : Bool) : (a ^^ (b ^^ a)) = b := by
  cases a <;> cases b <;> rfl

theorem not_xor_xor (a b : Bool) : (!(a ^^ !b ^^ a)) = b := by
  cases a <;> cases b <;> rfl

theorem decode_upper_lower (h : b.offset.getLsbD 0 = false) :
    ThumbBranch.decode b.upper b.lower = b := by
  obtain ⟨⟨k₁, k₂, k₃⟩, offset⟩ := b
  simp only [ThumbBranch.decode, ThumbBranch.mk.injEq, Prod.mk.injEq]
  refine ⟨⟨?_, ?_, ?_⟩, ?_⟩
  · apply eq_of_getLsbD_eq
    intro i hi
    simp only [ThumbBranch.upper, getLsbD_extractLsb', getLsbD_append]
    interval_cases i <;> simp
  · apply eq_of_getLsbD_eq
    intro i hi
    simp only [ThumbBranch.lower, getLsbD_extractLsb', getLsbD_append]
    interval_cases i <;> simp
  · simp only [ThumbBranch.lower, getLsbD_append]
    simp
  · apply eq_of_getLsbD_eq
    intro i hi
    have hzero : offset.getLsbD 0 = false := h
    simp only [ThumbBranch.upper, ThumbBranch.lower, getLsbD_append, BitVec.getLsbD_ofBool,
      getLsbD_extractLsb']
    interval_cases i <;> simp only [Nat.reduceAdd, Nat.reduceSub, Nat.reduceLT, Nat.reduceEqDiff,
      decide_true, decide_false, Bool.true_and, Bool.false_and, if_true, if_false,
      BitVec.reduceGetLsb, not_xor_xor, hzero]

theorem lower_decode (u l : BitVec 16) : (ThumbBranch.decode u l).lower = l := by
  apply eq_of_getLsbD_eq
  intro i hi
  simp only [ThumbBranch.decode, ThumbBranch.lower, getLsbD_append, BitVec.getLsbD_ofBool,
    getLsbD_extractLsb']
  interval_cases i <;> simp only [Nat.reduceAdd, Nat.reduceSub, Nat.reduceLT, Nat.reduceEqDiff,
    decide_true, decide_false, Bool.true_and, Bool.false_and, if_true, if_false,
    BitVec.reduceGetLsb, Bool.not_not, xor_xor]

theorem thmUpper_eq (u l : BitVec 16) (x : BitVec 32) :
    thmUpper (u.setWidth 32) x = ((ThumbBranch.decode u l).retarget x).upper := by
  apply eq_of_getLsbD_eq
  intro i hi
  simp only [thmUpper, ThumbBranch.decode, ThumbBranch.retarget, ThumbBranch.upper,
    BitVec.getLsbD_setWidth, getLsbD_append, BitVec.getLsbD_or, BitVec.getLsbD_and,
    BitVec.getLsbD_shiftLeft, BitVec.getLsbD_ushiftRight, BitVec.getLsbD_not, BitVec.getLsbD_ofBool,
    getLsbD_extractLsb']
  interval_cases i <;> simp only [Nat.reduceAdd, Nat.reduceSub, Nat.reduceLT, Nat.reduceEqDiff,
    decide_true, decide_false, Bool.not_true, Bool.not_false, Bool.true_and, Bool.false_and,
    Bool.and_true, Bool.and_false, Bool.or_false, Bool.false_or, if_true, if_false,
    BitVec.reduceGetLsb, BitVec.natCast_eq_ofNat, BitVec.ofNat_eq_ofNat]

theorem thmLower_eq (u l : BitVec 16) (x : BitVec 32) :
    thmLower (l.setWidth 32) x = ((ThumbBranch.decode u l).retarget x).lower := by
  apply eq_of_getLsbD_eq
  intro i hi
  simp only [thmLower, ThumbBranch.decode, ThumbBranch.retarget, ThumbBranch.lower,
    BitVec.getLsbD_setWidth, getLsbD_append, BitVec.getLsbD_or, BitVec.getLsbD_and,
    BitVec.getLsbD_shiftLeft, BitVec.getLsbD_ushiftRight, BitVec.getLsbD_not, BitVec.getLsbD_xor,
    BitVec.getLsbD_ofBool, getLsbD_extractLsb']
  interval_cases i <;> simp only [Nat.reduceAdd, Nat.reduceSub, Nat.reduceLT, Nat.reduceEqDiff,
    decide_true, decide_false, Bool.not_true, Bool.not_false, Bool.true_and, Bool.false_and,
    Bool.and_true, Bool.and_false, Bool.or_false, Bool.false_or, if_true, if_false,
    BitVec.reduceGetLsb, BitVec.natCast_eq_ofNat, BitVec.ofNat_eq_ofNat, Bool.xor_false]

theorem thmFields_eq (u l : BitVec 16) : thmFields (u.setWidth 32) (l.setWidth 32) =
    (ThumbBranch.decode u l).offset.setWidth 32 := by
  apply eq_of_getLsbD_eq
  intro i hi
  simp only [thmFields, ThumbBranch.decode, BitVec.getLsbD_setWidth, getLsbD_append,
    BitVec.getLsbD_or, BitVec.getLsbD_and, BitVec.getLsbD_shiftLeft, BitVec.getLsbD_ushiftRight,
    BitVec.getLsbD_not, BitVec.getLsbD_xor, BitVec.getLsbD_ofBool, getLsbD_extractLsb']
  interval_cases i <;> simp only [Nat.reduceAdd, Nat.reduceSub, Nat.reduceLT, Nat.reduceEqDiff,
    decide_true, decide_false, Bool.not_true, Bool.not_false, Bool.true_and, Bool.false_and,
    Bool.and_true, Bool.and_false, Bool.or_false, Bool.false_or, if_true, if_false,
    BitVec.reduceGetLsb, BitVec.ofNat_eq_ofNat]

theorem and_twoPow_ne_zero (x : BitVec 32) {n : ℕ} (hn : n < 32) :
    x &&& twoPow 32 n ≠ 0 ↔ x.getLsbD n = true := by
  rw [BitVec.and_twoPow]
  cases x.getLsbD n with
  | true =>
    refine iff_of_true (fun h => ?_) rfl
    have hbit := congrArg (fun v : BitVec 32 => v.getLsbD n) h
    simp [hn] at hbit
  | false => simp

theorem thmAddend_eq (u l : BitVec 16) : thmAddend (u.setWidth 32) (l.setWidth 32) =
    (ThumbBranch.decode u l).offset.signExtend 32 := by
  rw [thmAddend, thmFields_eq]
  generalize (ThumbBranch.decode u l).offset = v
  have hsign := and_twoPow_ne_zero (v.setWidth 32) (n := 24) (by decide)
  have hmsb : (v.setWidth 32 : BitVec 32).getLsbD 24 = v.msb := by
    rw [BitVec.msb_eq_getLsbD_last]
    simp
  have hlt := v.isLt
  rw [hmsb] at hsign
  simp only [show (0x01000000 : BitVec 32) = twoPow 32 24 from rfl, hsign]
  apply BitVec.eq_of_toNat_eq
  rw [BitVec.toNat_signExtend]
  cases hv : v.msb with
  | false => simp
  | true =>
    have hstep : (0x02000000 : BitVec 32).toNat = 2 ^ 25 := rfl
    simp only [if_true, BitVec.toNat_sub, BitVec.toNat_setWidth, hstep]
    omega

theorem signExtend_retarget (h : Reached x) : (b.retarget x).offset.signExtend 32 + 1 = x := by
  obtain ⟨hodd, hgt, hlt⟩ := h
  have hclear : (x &&& ~~~1) + 1 = x := by
    rw [BitVec.add_eq_or_of_and_eq_zero _ _ (by rw [BitVec.and_assoc]; simp)]
    apply eq_of_getLsbD_eq
    intro i hi
    by_cases hzero : i = 0
    · subst hzero
      simpa using hodd.symm
    · simp only [BitVec.getLsbD_or, BitVec.getLsbD_and, BitVec.getLsbD_not]
      simp [hzero, hi]
  have hfits : ((x &&& ~~~1).setWidth 25).signExtend 32 = x &&& ~~~1 := by
    generalize x &&& ~~~1 = y at hclear
    subst hclear
    have hy := y.isLt
    have hnat : (y + 1).toNat = (y.toNat + 1) % 2 ^ 32 := BitVec.toNat_add y 1
    rw [BitVec.toInt_eq_toNat_cond] at hgt hlt
    apply BitVec.eq_of_toInt_eq
    rw [BitVec.toInt_signExtend_of_le (by decide), BitVec.toInt_setWidth,
      BitVec.toInt_eq_toNat_cond, Int.bmod_def]
    omega
  calc (b.retarget x).offset.signExtend 32 + 1
      = ((x &&& ~~~1).setWidth 25).signExtend 32 + 1 := rfl
    _ = x := by rw [hfits, hclear]

theorem target_retarget (h : Reached (b.distance place symVal)) :
    (b.retarget (b.distance place symVal)).target place = symVal + b.offset.signExtend 32 := by
  rw [ThumbBranch.target, add_assoc, signExtend_retarget h, ThumbBranch.distance]
  ring

theorem eq_of_target (hkind : b.kind = b'.kind) (htarget : b.target place = b'.target place) :
    b = b' := by
  obtain ⟨kind, offset⟩ := b
  obtain ⟨kind', offset'⟩ := b'
  obtain rfl : kind = kind' := hkind
  have hsigned := add_left_cancel (add_right_cancel htarget)
  have hint := congrArg toInt hsigned
  dsimp only at hint
  rw [BitVec.toInt_signExtend_of_le (by decide), BitVec.toInt_signExtend_of_le (by decide)] at hint
  rw [BitVec.eq_of_toInt_eq hint]

/-! ### The memory -/

variable {a a' : ℕ} {v : BitVec 16}

theorem halfAt_setHalfAt (m : ℕ → UInt8) (a : ℕ) (v : BitVec 16) :
    halfAt (setHalfAt m a v) a = v := by
  rw [halfAt, setHalfAt, load_store_self m a (show v.toNat < 256 ^ 2 from v.isLt)]
  simp

theorem halfAt_setHalfAt_of_ne (h : a + 2 ≤ a' ∨ a' + 2 ≤ a) :
    halfAt (setHalfAt m a v) a' = halfAt m a' := by
  rw [halfAt, setHalfAt, load_store_of_disjoint h, halfAt]

theorem wordAt_setWordAt (m : ℕ → UInt8) (a : ℕ) (v : BitVec 32) : wordAt (setWordAt m a v) a = v := by
  rw [wordAt, setWordAt, load_store_self m a (show v.toNat < 256 ^ 4 from v.isLt)]
  simp

theorem onlyChanges_iff (m : ℕ → UInt8) (a : ℕ) (u l : BitVec 16) :
    OnlyChanges m (setHalfAt (setHalfAt m a u) (a + 8) l) a 4 ↔ halfAt m (a + 8) = l := by
  constructor
  · intro h
    have hsame : halfAt (setHalfAt (setHalfAt m a u) (a + 8) l) (a + 8) = halfAt m (a + 8) := by
      rw [halfAt, halfAt, load_congr fun x hle _ => h x (by omega)]
    rw [← hsame, halfAt_setHalfAt]
  · intro h x hx
    have hback : setHalfAt (setHalfAt m a u) (a + 8) l = setHalfAt m a u := by
      have hload : l.toNat = load (setHalfAt m a u) (a + 8) 2 := by
        rw [setHalfAt, load_store_of_disjoint (.inl (by omega)), ← h, halfAt, toNat_ofNat,
          mod_eq_of_lt (show _ < 2 ^ 16 from load_lt m (a + 8) 2)]
      rw [setHalfAt, hload, store_load]
    rw [hback]
    exact store_of_outside (by omega)

theorem onlyChanges_setWordAt (m : ℕ → UInt8) (a : ℕ) (v : BitVec 32) :
    OnlyChanges m (setWordAt m a v) a 4 := fun _ hx => store_of_outside hx

/-! ### What a relocation leaves -/

theorem branch24_eq (old symVal place : BitVec 32) : branch24 old symVal place =
    old.extractLsb' 24 8 ++
      (symVal + (old.extractLsb' 0 24).signExtend 32 <<< 2 - place).extractLsb' 2 24 := by
  have haddend : (if (old &&& 0x00ffffff) &&& 0x00800000 ≠ 0 then (old &&& 0x00ffffff) ||| 0xff000000
      else old &&& 0x00ffffff) = (old.extractLsb' 0 24).signExtend 32 := by
    have hsign := and_twoPow_ne_zero (old &&& 0x00ffffff) (n := 23) (by decide)
    have hbit : (old &&& 0x00ffffff).getLsbD 23 = old.getLsbD 23 := by simp
    rw [hbit] at hsign
    simp only [show (0x00800000 : BitVec 32) = twoPow 32 23 from rfl, hsign]
    apply eq_of_getLsbD_eq
    intro i hi
    rw [BitVec.getLsbD_signExtend, BitVec.msb_eq_getLsbD_last]
    cases hold : old.getLsbD 23 <;>
      simp only [getLsbD_extractLsb', BitVec.getLsbD_or, BitVec.getLsbD_and, Bool.false_eq_true,
        if_true, if_false] <;>
      interval_cases i <;>
      simp only [Nat.reduceSub, Nat.reduceLT, decide_true, decide_false, Bool.true_and,
        Bool.false_and, Bool.and_true, Bool.and_false, Bool.or_false, if_true, if_false,
        BitVec.reduceGetLsb, BitVec.ofNat_eq_ofNat, Nat.zero_add, Bool.or_true, hold]
  simp only [branch24, haddend]
  have hsum : symVal - place + (old.extractLsb' 0 24).signExtend 32 <<< 2 =
      symVal + (old.extractLsb' 0 24).signExtend 32 <<< 2 - place := by ring
  rw [hsum]
  generalize symVal + (old.extractLsb' 0 24).signExtend 32 <<< 2 - place = x
  apply eq_of_getLsbD_eq
  intro i hi
  simp only [getLsbD_append, getLsbD_extractLsb', BitVec.getLsbD_or, BitVec.getLsbD_and,
    BitVec.getLsbD_ushiftRight]
  interval_cases i <;> simp only [Nat.reduceAdd, Nat.reduceSub, Nat.reduceLT, decide_true,
    decide_false, Bool.true_and, Bool.false_and, Bool.and_true, Bool.and_false, Bool.or_false,
    Bool.false_or, if_true, if_false, BitVec.reduceGetLsb, BitVec.ofNat_eq_ofNat]

theorem v4bx_eq (old : BitVec 32) : old &&& 0xf000000f ||| 0x01a0f000 =
    old.extractLsb' 28 4 ++ 0x1a0f00#24 ++ old.extractLsb' 0 4 := by
  apply eq_of_getLsbD_eq
  intro i hi
  simp only [getLsbD_append, getLsbD_extractLsb']
  interval_cases i <;> simp

/-- **A Thumb branch** is relocated exactly if it is rejected, or stands there already. -/
theorem thmRelocate_iff (m : ℕ → UInt8) (place symVal : BitVec 32) :
    (∀ m', thmRelocate m place symVal = (m', 0) → OnlyChanges m m' place.toNat 4 ∧
      let old := ThumbBranch.decode (halfAt m place.toNat) (halfAt m (place.toNat + 2))
      let new := ThumbBranch.decode (halfAt m' place.toNat) (halfAt m' (place.toNat + 2))
      new.kind = old.kind ∧ new.target place = symVal + old.offset.signExtend 32) ↔
    (Reached ((ThumbBranch.decode (halfAt m place.toNat) (halfAt m (place.toNat + 2))).distance place
      symVal) → StandsAlready m place symVal) := by
  obtain ⟨b, hb⟩ : ∃ b, b = ThumbBranch.decode (halfAt m place.toNat) (halfAt m (place.toNat + 2)) :=
    ⟨_, rfl⟩
  have hoffset : thmOffset m place symVal = b.distance place symVal := by
    rw [thmOffset, thmAddend_eq, ← hb, ThumbBranch.distance]
  have haccept : (thmOffset m place symVal &&& 1 = 0 ∨
      (thmOffset m place symVal).toInt ≤ (0xff000000#32).toInt ∨
      (thmOffset m place symVal).toInt ≥ (0x01000000#32).toInt) ↔
        ¬ Reached (b.distance place symVal) := by
    have hodd := and_twoPow_ne_zero (b.distance place symVal) (n := 0) (by decide)
    rw [hoffset, Reached, ← hodd, not_and_or, not_and_or, not_not, not_lt, not_lt]
    rfl
  simp only [StandsAlready, ← hb]
  by_cases hreached : Reached (b.distance place symVal)
  · have hrun : thmRelocate m place symVal = (setHalfAt (setHalfAt m place.toNat
        (b.retarget (b.distance place symVal)).upper) (place.toNat + 8)
          (b.retarget (b.distance place symVal)).lower, 0) := by
      rw [thmRelocate, if_neg fun h => haccept.1 h hreached, thmUpper_eq _ (halfAt m (place.toNat + 2)),
        thmLower_eq (halfAt m place.toNat), ← hb, hoffset]
    have htarget := target_retarget hreached
    have hself : ThumbBranch.decode (b.retarget (b.distance place symVal)).upper
        (b.retarget (b.distance place symVal)).lower = b.retarget (b.distance place symVal) :=
      decode_upper_lower (by simp [ThumbBranch.retarget])
    have hkind : (b.retarget (b.distance place symVal)).kind = b.kind := rfl
    generalize b.retarget (b.distance place symVal) = b' at hrun htarget hself hkind ⊢
    have hupper : halfAt (setHalfAt (setHalfAt m place.toNat b'.upper) (place.toNat + 8) b'.lower)
        place.toNat = b'.upper := by
      rw [halfAt_setHalfAt_of_ne (.inr (by omega)), halfAt_setHalfAt]
    have hlower : halfAt (setHalfAt (setHalfAt m place.toNat b'.upper) (place.toNat + 8) b'.lower)
        (place.toNat + 2) = halfAt m (place.toNat + 2) := by
      rw [halfAt_setHalfAt_of_ne (.inr (by omega)), halfAt_setHalfAt_of_ne (.inl (by omega))]
    rw [hrun]
    constructor
    · intro h _
      obtain ⟨honly, hnewkind, hnewtarget⟩ := h _ rfl
      rw [hupper, hlower] at hnewkind hnewtarget
      have hnew := eq_of_target (hnewkind.trans hkind.symm) (hnewtarget.trans htarget.symm)
      have hl := congrArg ThumbBranch.lower hnew
      rw [lower_decode] at hl
      exact ⟨hl, (onlyChanges_iff ..).1 honly⟩
    · intro h m' he
      obtain ⟨rfl, -⟩ := Prod.mk.inj he
      obtain ⟨hthere, hbehind⟩ := h hreached
      refine ⟨(onlyChanges_iff ..).2 hbehind, ?_⟩
      rw [hupper, hlower, hthere, hself]
      exact ⟨hkind, htarget⟩
  · refine iff_of_true (fun m' he => ?_) fun h => absurd h hreached
    rw [thmRelocate, if_pos (haccept.2 hreached)] at he
    exact absurd (Prod.mk.inj he).2 (by decide)

end

theorem dlmoduleRelocate_of_not_thumb {module : DlModule} {rel : Elf32Rel} {type : ArmReloc}
    (hrel : rel.type = some type) (hthumb : ¬ type.IsThumb) (symVal : BitVec 32) (m : ℕ → UInt8) :
    dlmoduleRelocate module rel symVal m = (setWordAt m (module.place rel).toNat
      (armElfValue type (wordAt m (module.place rel).toNat) symVal (module.place rel)), 0) := by
  rw [dlmoduleRelocate, hrel]
  cases type with
  | thmCall => exact absurd (.inl rfl) hthumb
  | thmJump24 => exact absurd (.inr rfl) hthumb
  | none =>
    have hback : setWordAt m (module.place rel).toNat (wordAt m (module.place rel).toNat) = m := by
      rw [setWordAt, wordAt, toNat_ofNat, mod_eq_of_lt (show _ < 2 ^ 32 from load_lt ..),
        store_load]
    exact Prod.ext hback.symm rfl
  | pc24 | plt32 | call | jump24 => simp only [branch24_eq, armElfValue]
  | v4bx => simp only [v4bx_eq, armElfValue]
  | abs32 => simp only [armElfValue, add_comm]
  | rel32 =>
    simp only [armElfValue]
    rw [← add_sub_assoc, add_comm symVal]
  | globDat | jumpSlot | relative => rfl

/-- **A relocation** leaves what it is to leave exactly if it is not that of a Thumb branch, or is
rejected, or the branch stands there already. -/
theorem relocates_iff (module : DlModule) (rel : Elf32Rel) (symVal : BitVec 32) (m : ℕ → UInt8) :
    Relocates module rel symVal m ↔
      ∀ type, rel.type = some type → type.IsThumb →
        Reached ((ThumbBranch.decode (halfAt m (module.place rel).toNat)
          (halfAt m ((module.place rel).toNat + 2))).distance (module.place rel) symVal) →
        StandsAlready m (module.place rel) symVal := by
  cases hrel : rel.type with
  | none => exact iff_of_true (fun m' type _ he => by rw [hrel] at he; cases he) nofun
  | some type =>
    by_cases hthumb : type.IsThumb
    · have hrun : dlmoduleRelocate module rel symVal m = thmRelocate m (module.place rel) symVal := by
        rw [dlmoduleRelocate, hrel]
        rcases hthumb with rfl | rfl <;> rfl
      have hiff := thmRelocate_iff m (module.place rel) symVal
      rw [Relocates, hrun, hrel]
      constructor
      · rintro h type' ⟨⟩ -
        refine hiff.1 fun m' he => ?_
        have hm' := h m' type he rfl
        rwa [if_pos hthumb] at hm'
      · rintro h m' type' he ⟨⟩
        have hm' := hiff.2 (h type rfl hthumb) m' he
        rwa [if_pos hthumb]
    · refine iff_of_true ?_ fun type' he hthumb' => ?_
      · rintro m' type' he htype
        obtain rfl : type = type' := some_inj.1 (hrel.symm.trans htype)
        rw [dlmoduleRelocate_of_not_thumb hrel hthumb] at he
        obtain ⟨rfl, -⟩ := Prod.mk.inj he
        rw [if_neg hthumb]
        exact ⟨onlyChanges_setWordAt _ _ _, wordAt_setWordAt ..⟩
      · cases he
        exact absurd hthumb' hthumb

/-- `bl .` at `0x1000`. -/
def blHere : ℕ → UInt8 := setHalfAt (setHalfAt (fun _ => 0) 0x1000 0xf7ff) 0x1002 0xfffe

/-- It is relocated to the Thumb function at `0x1100`: the second half-word is written eight bytes
behind the place. -/
theorem not_relocates :
    ¬ ∀ (module : DlModule) (rel : Elf32Rel) (symVal : BitVec 32) (m : ℕ → UInt8),
      Relocates module rel symVal m := by
  intro h
  have haccept : (dlmoduleRelocate ⟨0x1000, 0⟩ ⟨0, 10⟩ 0x1101 blHere).2 = 0 := by decide +kernel
  have honly := (h ⟨0x1000, 0⟩ ⟨0, 10⟩ 0x1101 blHere _ .thmCall (Prod.ext rfl haccept) rfl).1
  have hbyte : (dlmoduleRelocate ⟨0x1000, 0⟩ ⟨0, 10⟩ 0x1101 blHere).1 0x1008 ≠ blHere 0x1008 := by
    decide +kernel
  exact hbyte (honly 0x1008 (.inr (by decide)))

end RtThread
