import McCortexM3.WrapMemory

/-!
# Setting and copying memory

`rt_memset`, `rt_memcpy` and `rt_memmove` of `kservice.c`, with and without `RT_USING_TINY_SIZE`;
`long` has 32 bits.  The variable `len` of `rt_memcpy` is an `int`, but it is compared with sizes,
which are unsigned, and otherwise only counts down to zero, so that it is a word here as well.

## Main definitions

* `rtMemset`, `rtMemcpy`, `rtMemmove` — the functions.

## Main results

* `rtMemset_eq`, `rtMemcpy_eq`, `rtMemmove_eq` — the memory that they leave.
-/

set_option linter.all false

namespace RtThread

open Nat WrapMemory
open UInt32 (le_iff_toNat_le ofNat ofNat_add ofNat_toNat toNat_add toNat_inj toNat_ofNat'
  toNat_sub toNat_toUInt8)

/-- The configuration of the build: whether `RT_USING_TINY_SIZE` is defined. -/
class TinySizeConfig where
  usingTinySize : Bool

export TinySizeConfig (usingTinySize)

/-! ### The functions -/

/-- A memory and the pointer that goes through it. -/
structure SetState where
  mem : Memory
  ptr : UInt32

/-- A memory and the two pointers that go through it. -/
structure CopyState where
  mem : Memory
  dst : UInt32
  src : UInt32

/-- `*m++ = c`. -/
def setByte (c : UInt8) (s : SetState) : SetState := ⟨storeByte s.mem s.ptr c, s.ptr + 1⟩

/-- `*aligned_addr++ = buffer`. -/
def setWord (buffer : UInt32) (s : SetState) : SetState :=
  ⟨storeWord s.mem s.ptr buffer, s.ptr + 4⟩

/-- `*dst_ptr++ = *src_ptr++`. -/
def copyByte (s : CopyState) : CopyState :=
  ⟨storeByte s.mem s.dst (s.mem s.src), s.dst + 1, s.src + 1⟩

/-- `*aligned_dst++ = *aligned_src++`. -/
def copyWord (s : CopyState) : CopyState :=
  ⟨storeWord s.mem s.dst (loadWord s.mem s.src), s.dst + 4, s.src + 4⟩

/-- `*(--tmp) = *(--s)`. -/
def copyByteBack (s : CopyState) : CopyState :=
  ⟨storeByte s.mem (s.dst - 1) (s.mem (s.src - 1)), s.dst - 1, s.src - 1⟩

/-- `UNALIGNED` of `rt_memset`. -/
def unaligned (x : UInt32) : Bool := x &&& 3 ≠ 0

/-- `UNALIGNED` of `rt_memcpy`. -/
def unalignedTwo (x y : UInt32) : Bool := (x &&& 3) ||| (y &&& 3) ≠ 0

/-- `rt_memset`: the memory that it leaves, and what it returns. -/
def rtMemset [TinySizeConfig] (mem : Memory) (s c count : UInt32) : Memory × UInt32 :=
  if usingTinySize then
    ((countDown 1 (by decide) (fun _ => setByte c.toUInt8) count ⟨mem, s⟩).1.mem, s)
  else
    let d := c &&& 0xff
    let (m, count) :=
      if ¬ count < 4 ∧ ¬ unaligned s then
        let buffer := d <<< 8 ||| d
        let buffer := buffer ||| buffer <<< 16
        let (m, count) := countDown 16 (by decide)
          (fun _ s => setWord buffer (setWord buffer (setWord buffer (setWord buffer s)))) count
          ⟨mem, s⟩
        countDown 4 (by decide) (fun _ => setWord buffer) count m
      else (⟨mem, s⟩, count)
    ((countDown 1 (by decide) (fun _ => setByte d.toUInt8) count m).1.mem, s)

/-- `rt_memcpy`. -/
def rtMemcpy [TinySizeConfig] (mem : Memory) (dst src count : UInt32) : Memory × UInt32 :=
  if usingTinySize then
    if dst ≤ src ∨ dst > src + count then
      ((countDown 1 (by decide) (fun _ => copyByte) count ⟨mem, dst, src⟩).1.mem, dst)
    else
      ((countDown 1 (by decide) (fun len m => storeByte m (dst + (len - 1)) (m (src + (len - 1))))
        count mem).1, dst)
  else
    let (m, len) :=
      if ¬ count < 16 ∧ ¬ unalignedTwo src dst then
        let (m, len) := countDown 16 (by decide)
          (fun _ s => copyWord (copyWord (copyWord (copyWord s)))) count ⟨mem, dst, src⟩
        countDown 4 (by decide) (fun _ => copyWord) len m
      else (⟨mem, dst, src⟩, count)
    ((countDown 1 (by decide) (fun _ => copyByte) len m).1.mem, dst)

/-- `rt_memmove`. -/
def rtMemmove (mem : Memory) (dest src n : UInt32) : Memory × UInt32 :=
  if src < dest ∧ dest < src + n then
    ((countDown 1 (by decide) (fun _ => copyByteBack) n ⟨mem, dest + n, src + n⟩).1.mem, dest)
  else ((countDown 1 (by decide) (fun _ => copyByte) n ⟨mem, dest, src⟩).1.mem, dest)

/-! ### Setting memory -/

section

variable {mem : Memory} {s : UInt32} {c : UInt8}

/-- The first `i` bytes are set. -/
structure Filled (mem : Memory) (s : UInt32) (c : UInt8) (i : ℕ) (st : SetState) : Prop where
  mem : st.mem = fill mem s i c
  ptr : st.ptr = s + .ofNat i

theorem Filled.start : Filled mem s c 0 ⟨mem, s⟩ := ⟨rfl, (UInt32.add_zero s).symm⟩

theorem Filled.setByte {i : ℕ} {st : SetState} (h : Filled mem s c i st) (hi : i + 1 ≤ 2 ^ 32) :
    Filled mem s c (i + 1) (setByte c st) := by
  constructor
  · show storeByte st.mem st.ptr c = _
    rw [storeByte_eq_fill, h.mem, h.ptr, fill_fill hi]
  · show st.ptr + 1 = _
    rw [h.ptr, ofNat_add, UInt32.add_assoc]
    rfl

theorem Filled.setWord {i : ℕ} {st : SetState} {buffer : UInt32} (h : Filled mem s c i st)
    (hbuffer : buffer.toNat = c.toNat + 256 * c.toNat + 256 ^ 2 * c.toNat + 256 ^ 3 * c.toNat)
    (hi : i + 4 ≤ 2 ^ 32) : Filled mem s c (i + 4) (setWord buffer st) := by
  constructor
  · show storeWord st.mem st.ptr buffer = _
    rw [storeWord_eq_fill hbuffer, h.mem, h.ptr, fill_fill hi]
  · show st.ptr + 4 = _
    rw [h.ptr, ofNat_add, UInt32.add_assoc]
    rfl

theorem toNat_buffer : ∀ d : Fin 256,
    ((ofNat d <<< 8 ||| ofNat d) |||
        (ofNat d <<< 8 ||| ofNat d) <<< 16).toNat =
      d.val + 256 * d.val + 256 ^ 2 * d.val + 256 ^ 3 * d.val := by
  decide +kernel

/-- **`rt_memset`** sets `count` bytes and returns its argument. -/
theorem rtMemset_eq [TinySizeConfig] (mem : Memory) (s c count : UInt32) :
    rtMemset mem s c count = (fill mem s count.toNat c.toUInt8, s) := by
  have hcount := count.toNat_lt
  -- the bytewise loop sets what is left
  have hbytes : ∀ (i : ℕ) (len : UInt32) (st : SetState), i + len.toNat = count.toNat →
      Filled mem s c.toUInt8 i st →
      (countDown 1 (by decide) (fun _ => setByte c.toUInt8) len st).1.mem =
        fill mem s count.toNat c.toUInt8 := by
    intro i len st hlen hst
    have hstep : ∀ (i : ℕ) (len : UInt32) (st : SetState), i + len.toNat = count.toNat → 1 ≤ len →
        Filled mem s c.toUInt8 i st → Filled mem s c.toUInt8 (i + 1) (setByte c.toUInt8 st) := by
      intro i len st hlen hle hst
      rw [le_iff_toNat_le] at hle
      have hone : (1 : UInt32).toNat = 1 := rfl
      exact hst.setByte (by omega)
    exact (countDown_one (by decide) hstep hlen hst).mem
  have hd : c &&& 0xff = .ofNat c.toUInt8.toNat := by
    rw [← toNat_inj, UInt32.toNat_and, toNat_ofNat', toNat_toUInt8]
    show c.toNat &&& (2 ^ 8 - 1) = _
    rw [and_two_pow_sub_one_eq_mod]
    omega
  have hchar : (c &&& 0xff).toUInt8 = c.toUInt8 := by
    rw [hd, ← UInt8.toNat_inj, toNat_toUInt8, toNat_ofNat', toNat_toUInt8]
    omega
  have hbuffer := toNat_buffer ⟨c.toUInt8.toNat, c.toUInt8.toNat_lt⟩
  unfold rtMemset
  split
  · rw [hbytes 0 count _ (Nat.zero_add _) Filled.start]
  · dsimp only
    rw [hchar]
    split
    · rw [hd]
      dsimp only at hbuffer
      generalize ((ofNat c.toUInt8.toNat <<< 8 ||| ofNat c.toUInt8.toNat) |||
        (ofNat c.toUInt8.toNat <<< 8 ||| ofNat c.toUInt8.toNat) <<< 16) = buffer
        at hbuffer ⊢
      have h4 : (4 : UInt32).toNat = 4 := rfl
      have h16 : (16 : UInt32).toNat = 16 := rfl
      -- four words at a time, and then one word at a time
      have hblock : ∀ (i : ℕ) (len : UInt32) (st : SetState), i + len.toNat = count.toNat →
          16 ≤ len → Filled mem s c.toUInt8 i st →
          Filled mem s c.toUInt8 (i + (16 : UInt32).toNat)
            (setWord buffer (setWord buffer (setWord buffer (setWord buffer st)))) := by
        intro i len st hlen hle hst
        rw [le_iff_toNat_le] at hle
        exact (((hst.setWord hbuffer (by omega)).setWord hbuffer (by omega)).setWord hbuffer
          (by omega)).setWord hbuffer (by omega)
      have hword : ∀ (i : ℕ) (len : UInt32) (st : SetState), i + len.toNat = count.toNat →
          4 ≤ len → Filled mem s c.toUInt8 i st →
          Filled mem s c.toUInt8 (i + (4 : UInt32).toNat) (setWord buffer st) := by
        intro i len st hlen hle hst
        rw [le_iff_toNat_le] at hle
        exact hst.setWord hbuffer (by omega)
      obtain ⟨i, hi, hst, -⟩ := countDown_induct (by decide) hblock (Nat.zero_add count.toNat)
        Filled.start
      obtain ⟨j, hj, hst, -⟩ := countDown_induct (by decide) hword hi hst
      rw [hbytes j _ _ hj hst]
    · rw [hbytes 0 count _ (Nat.zero_add _) Filled.start]

end

/-! ### Copying memory -/

section

variable {mem : Memory} {dst src : UInt32} {n : ℕ}

/-- No byte is overwritten before it is read, when the bytes are copied from the first one on. -/
def Forward (dst src : UInt32) (n : ℕ) : Prop := ∀ j < n, j ≤ (src + .ofNat j - dst).toNat

/-- The same from the last byte on. -/
def Backward (dst src : UInt32) (n : ℕ) : Prop :=
  ∀ j < n, n - (j + 1) ≤ (src + .ofNat j - (dst + .ofNat (j + 1))).toNat

section

variable (h : Apart dst src n) (hn : n ≤ 2 ^ 32)
include h hn

theorem le_toNat_sub_of_apart {j : ℕ} (hj : j < n) : n ≤ (src + .ofNat j - dst).toNat := by
  have hsrc : (src + .ofNat j - src).toNat = j := by
    rw [UInt32.add_comm, UInt32.add_sub_cancel, toNat_ofNat']
    omega
  have hnot := h (src + .ofNat j)
  rw [hsrc] at hnot
  exact Nat.le_of_not_lt fun hlt => hnot ⟨hlt, hj⟩

theorem forward_of_apart : Forward dst src n :=
  fun _ hj => (Nat.le_of_lt hj).trans (le_toNat_sub_of_apart h hn hj)

theorem backward_of_apart : Backward dst src n := by
  intro j hj
  have hle := le_toNat_sub_of_apart h hn hj
  have hlt := (src + .ofNat j - dst).toNat_lt
  rw [toNat_sub_add]
  omega

end

/-- The first `i` bytes are copied. -/
structure Copied (mem : Memory) (dst src : UInt32) (i : ℕ) (st : CopyState) : Prop where
  mem : st.mem = copy mem dst src i
  dst : st.dst = dst + .ofNat i
  src : st.src = src + .ofNat i

theorem Copied.start : Copied mem dst src 0 ⟨mem, dst, src⟩ :=
  ⟨rfl, (UInt32.add_zero dst).symm, (UInt32.add_zero src).symm⟩

theorem Copied.part {i k : ℕ} {st : CopyState} (h : Copied mem dst src i st)
    (hforward : Forward dst src n) (hi : i + k ≤ n) (hn : n ≤ 2 ^ 32) :
    Copied mem dst src (i + k)
      ⟨copy st.mem st.dst st.src k, st.dst + .ofNat k, st.src + .ofNat k⟩ := by
  constructor
  · show copy st.mem st.dst st.src k = _
    rw [h.mem, h.dst, h.src,
      copy_copy (by omega) fun j hle hlt => hle.trans (hforward j (by omega))]
  · show st.dst + .ofNat k = _
    rw [h.dst, ofNat_add, UInt32.add_assoc]
  · show st.src + .ofNat k = _
    rw [h.src, ofNat_add, UInt32.add_assoc]

theorem copyByte_eq (st : CopyState) :
    copyByte st = ⟨copy st.mem st.dst st.src 1, st.dst + .ofNat 1, st.src + .ofNat 1⟩ := by
  unfold copyByte
  rw [storeByte_eq_copy]
  rfl

theorem copyWord_eq (st : CopyState) :
    copyWord st = ⟨copy st.mem st.dst st.src 4, st.dst + .ofNat 4, st.src + .ofNat 4⟩ := by
  unfold copyWord
  rw [storeWord_loadWord]
  rfl

theorem copyByte_loop (hforward : Forward dst src n) (hn : n ≤ 2 ^ 32) {i : ℕ} {len : UInt32}
    {st : CopyState} (hlen : i + len.toNat = n) (hst : Copied mem dst src i st) :
    (countDown 1 (by decide) (fun _ => copyByte) len st).1.mem = copy mem dst src n := by
  have hstep : ∀ (i : ℕ) (len : UInt32) (st : CopyState), i + len.toNat = n → 1 ≤ len →
      Copied mem dst src i st → Copied mem dst src (i + 1) (copyByte st) := by
    intro i len st hlen hle hst
    rw [le_iff_toNat_le] at hle
    have hone : (1 : UInt32).toNat = 1 := rfl
    rw [copyByte_eq]
    exact hst.part hforward (by omega) hn
  exact (countDown_one (by decide) hstep hlen hst).mem

/-- The last `i` bytes are copied. -/
def CopiedBack (mem : Memory) (dst src : UInt32) (n i : ℕ) (m : Memory) : Prop :=
  m = copy mem (dst + .ofNat (n - i)) (src + .ofNat (n - i)) i

theorem CopiedBack.byte {i : ℕ} {m : Memory} (h : CopiedBack mem dst src n i m)
    (hbackward : Backward dst src n) (hi : i + 1 ≤ n) (hn : n ≤ 2 ^ 32) :
    CopiedBack mem dst src n (i + 1)
      (storeByte m (dst + .ofNat (n - (i + 1))) (m (src + .ofNat (n - (i + 1))))) := by
  have hnext : ∀ a : UInt32, a + .ofNat (n - i) = a + .ofNat (n - (i + 1)) + .ofNat 1 := by
    intro a
    rw [UInt32.add_assoc, ← ofNat_add, show n - (i + 1) + 1 = n - i by omega]
  unfold CopiedBack at h ⊢
  rw [storeByte_eq_copy, h, hnext dst, hnext src, copy_copy_back (by omega), Nat.add_comm]
  intro j hj
  have hread := hbackward (n - (i + 1)) (by omega)
  obtain rfl : j = 0 := by omega
  rw [show src + ofNat (n - (i + 1)) + ofNat 0 =
    src + ofNat (n - (i + 1)) from UInt32.add_zero _, ← hnext]
  rw [show n - (i + 1) + 1 = n - i by omega] at hread
  omega

/-- The last `i` bytes are copied, and the pointers are behind those that are left. -/
structure CopyingBack (mem : Memory) (dst src : UInt32) (n i : ℕ) (st : CopyState) : Prop where
  mem : CopiedBack mem dst src n i st.mem
  dst : st.dst = dst + .ofNat (n - i)
  src : st.src = src + .ofNat (n - i)

/-- **`rt_memcpy`** copies `count` bytes, if source and destination are apart, and returns the
destination. -/
theorem rtMemcpy_eq [TinySizeConfig] {count : UInt32} (h : Apart dst src count.toNat) :
    rtMemcpy mem dst src count = (copy mem dst src count.toNat, dst) := by
  have hcount := count.toNat_lt
  have hforward := forward_of_apart h hcount.le
  unfold rtMemcpy
  split
  · split
    · rw [copyByte_loop hforward hcount.le (Nat.zero_add _) Copied.start]
    · have hstep : ∀ (i : ℕ) (len : UInt32) (m : Memory), i + len.toNat = count.toNat → 1 ≤ len →
          CopiedBack mem dst src count.toNat i m → CopiedBack mem dst src count.toNat (i + 1)
            (storeByte m (dst + (len - 1)) (m (src + (len - 1)))) := by
        intro i len m hlen hle hm
        have hone : (1 : UInt32).toNat = 1 := rfl
        have hle' := le_iff_toNat_le.1 hle
        have hpred : len - 1 = .ofNat (count.toNat - (i + 1)) := by
          have hlt := len.toNat_lt
          rw [← toNat_inj, UInt32.toNat_sub_of_le _ _ hle, toNat_ofNat']
          omega
        rw [hpred]
        exact hm.byte (backward_of_apart h hcount.le) (by omega) hcount.le
      have hnone : CopiedBack mem dst src count.toNat 0 mem := copy_zero.symm
      have hback := countDown_one (by decide) hstep (Nat.zero_add count.toNat) hnone
      unfold CopiedBack at hback
      rw [Nat.sub_self] at hback
      rw [hback]
      rw [show dst + ofNat 0 = dst from UInt32.add_zero dst,
        show src + ofNat 0 = src from UInt32.add_zero src]
  · dsimp only
    split
    · have h4 : (4 : UInt32).toNat = 4 := rfl
      have h16 : (16 : UInt32).toNat = 16 := rfl
      have hword : ∀ {i : ℕ} {st : CopyState}, Copied mem dst src i st → i + 4 ≤ count.toNat →
          Copied mem dst src (i + 4) (copyWord st) := by
        intro i st hst hi
        rw [copyWord_eq]
        exact hst.part hforward hi hcount.le
      -- four words at a time, and then one word at a time
      have hblock : ∀ (i : ℕ) (len : UInt32) (st : CopyState), i + len.toNat = count.toNat →
          16 ≤ len → Copied mem dst src i st → Copied mem dst src (i + (16 : UInt32).toNat)
            (copyWord (copyWord (copyWord (copyWord st)))) := by
        intro i len st hlen hle hst
        rw [le_iff_toNat_le] at hle
        exact hword (hword (hword (hword hst (by omega)) (by omega)) (by omega)) (by omega)
      have hsingle : ∀ (i : ℕ) (len : UInt32) (st : CopyState), i + len.toNat = count.toNat →
          4 ≤ len → Copied mem dst src i st →
          Copied mem dst src (i + (4 : UInt32).toNat) (copyWord st) := by
        intro i len st hlen hle hst
        rw [le_iff_toNat_le] at hle
        exact hword hst (by omega)
      obtain ⟨i, hi, hst, -⟩ := countDown_induct (by decide) hblock (Nat.zero_add count.toNat)
        Copied.start
      obtain ⟨j, hj, hst, -⟩ := countDown_induct (by decide) hsingle hi hst
      rw [copyByte_loop hforward hcount.le hj hst]
    · rw [copyByte_loop hforward hcount.le (Nat.zero_add _) Copied.start]

/-- **`rt_memmove`** copies `n` bytes, however source and destination overlap, and returns the
destination. -/
theorem rtMemmove_eq {n : UInt32} (hsrc : src.toNat + n.toNat < 2 ^ 32)
    (hdst : dst.toNat + n.toNat ≤ 2 ^ 32) :
    rtMemmove mem dst src n = (copy mem dst src n.toNat, dst) := by
  have hn := n.toNat_lt
  have hone : (1 : UInt32).toNat = 1 := rfl
  have hend : (src + n).toNat = src.toNat + n.toNat := by
    rw [toNat_add, mod_eq_of_lt hsrc]
  have hless : src < dst ∧ dst < src + n ↔
      src.toNat < dst.toNat ∧ dst.toNat < src.toNat + n.toNat := by
    rw [UInt32.lt_iff_toNat_lt, UInt32.lt_iff_toNat_lt, hend]
  have hdist : ∀ j < n.toNat, ∀ a : UInt32, (src + .ofNat j - a).toNat =
      (2 ^ 32 - a.toNat + (src.toNat + j)) % 2 ^ 32 := by
    intro j hj a
    rw [toNat_sub, toNat_add, toNat_ofNat']
    omega
  unfold rtMemmove
  simp only [hless]
  split
  · next hover =>
    have hbackward : Backward dst src n.toNat := by
      intro j hj
      rw [hdist j hj, toNat_add, toNat_ofNat']
      omega
    have hstep : ∀ (i : ℕ) (len : UInt32) (st : CopyState), i + len.toNat = n.toNat → 1 ≤ len →
        CopyingBack mem dst src n.toNat i st →
        CopyingBack mem dst src n.toNat (i + 1) (copyByteBack st) := by
      intro i len st hlen hle hst
      obtain ⟨hmem, hd, hs⟩ := hst
      rw [le_iff_toNat_le] at hle
      have hpred : ∀ a : UInt32, a + .ofNat (n.toNat - i) - 1 = a + .ofNat (n.toNat - (i + 1)) := by
        intro a
        rw [show n.toNat - i = n.toNat - (i + 1) + 1 by omega, ofNat_add, ← UInt32.add_assoc]
        exact UInt32.add_sub_cancel ..
      unfold copyByteBack
      rw [hd, hs, hpred, hpred]
      exact ⟨hmem.byte hbackward (by omega) hn.le, rfl, rfl⟩
    have hnone : CopyingBack mem dst src n.toNat 0 ⟨mem, dst + n, src + n⟩ := by
      refine ⟨copy_zero.symm, ?_, ?_⟩
      · rw [Nat.sub_zero, ofNat_toNat]
      · rw [Nat.sub_zero, ofNat_toNat]
    have hmem := (countDown_one (by decide) hstep (Nat.zero_add n.toNat) hnone).mem
    unfold CopiedBack at hmem
    rw [Nat.sub_self] at hmem
    rw [hmem, show dst + ofNat 0 = dst from UInt32.add_zero dst,
      show src + ofNat 0 = src from UInt32.add_zero src]
  · next hover =>
    have hforward : Forward dst src n.toNat := by
      intro j hj
      rw [hdist j hj]
      omega
    rw [copyByte_loop hforward hn.le (Nat.zero_add _) Copied.start]

end

/-- **Memory is set and copied byte by byte**, in both builds: `rt_memset` always, `rt_memcpy` when
source and destination have no byte in common, `rt_memmove` for objects that end in front of the
last address. -/
theorem memory_spec [TinySizeConfig] (mem : Memory) (dst src c count : UInt32) :
    rtMemset mem dst c count = (fill mem dst count.toNat c.toUInt8, dst) ∧
      (Apart dst src count.toNat →
        rtMemcpy mem dst src count = (copy mem dst src count.toNat, dst)) ∧
      (src.toNat + count.toNat < 2 ^ 32 → dst.toNat + count.toNat ≤ 2 ^ 32 →
        rtMemmove mem dst src count = (copy mem dst src count.toNat, dst)) :=
  ⟨rtMemset_eq mem dst c count, rtMemcpy_eq, rtMemmove_eq⟩

/-- Twenty bytes are copied, and moved up by four. -/
theorem memory_spec_twenty :
    @rtMemcpy ⟨false⟩ (fun x => x.toUInt8) 0x20000100 0x20000000 20 =
        (copy (fun x => x.toUInt8) 0x20000100 0x20000000 20, 0x20000100) ∧
      rtMemmove (fun x => x.toUInt8) 0x20000004 0x20000000 20 =
        (copy (fun x => x.toUInt8) 0x20000004 0x20000000 20, 0x20000004) := by
  refine ⟨(@memory_spec ⟨false⟩ _ 0x20000100 0x20000000 0 20).2.1 ?_,
    (@memory_spec ⟨false⟩ _ 0x20000004 0x20000000 0 20).2.2 (by decide) (by decide)⟩
  intro x
  have hx := x.toNat_lt
  have hdst : (0x20000100 : UInt32).toNat = 0x20000100 := rfl
  have hsrc : (0x20000000 : UInt32).toNat = 0x20000000 := rfl
  have hcount : (20 : UInt32).toNat = 20 := rfl
  rw [toNat_sub, toNat_sub]
  omega

end RtThread
