import McCortexM3.Finsh.Evaluation

/-!
# Listings for the virtual machine of finsh

Code as the list of its operations.  Where an operation moves the stack pointer depends on the
operation and its operand only, not on the values; so a listing has a depth behind it, or one of its
operations moves the stack pointer out of the stack.

## Main definitions

* `Instr` — an operation with its operand.
* `depth` — the depth of the stack behind a listing.

## Main results

* `run_listing` — the machine moves the stack pointer as the depth says.
* `escaped_finshVmRun` — the stack pointer stays in the stack if there is a depth.
-/

set_option linter.all false

namespace RtThread

open List Nat

/-! ### Listings -/

/-- The number of bytes of the operand. -/
def VmOp.operandSize : VmOp → ℕ
  | .ld w => w.bytes
  | .ldValue _ => 4
  | .call => 1
  | _ => 0

/-- An operation with its operand. -/
structure Instr where
  op : VmOp
  operand : List UInt8
  length_operand : operand.length = op.operandSize

namespace Instr

/-- The code of an operation. -/
def bytes (i : Instr) : List UInt8 := i.op.opcode :: i.operand

/-- How far the stack pointer moves down first. -/
def takes (i : Instr) : ℕ :=
  match i.op with
  | .bin .. | .st _ | .pop => 1
  | .call => (i.operand.getD 0 0).toNat + 1
  | _ => 0

/-- How far the stack pointer moves up then. -/
def gives (i : Instr) : ℕ :=
  match i.op with
  | .ld _ | .ldValue _ | .call => 1
  | _ => 0

end Instr

/-- The depth of the stack behind a listing, if the stack pointer stays in the stack. -/
def depth : List Instr → ℕ → Option ℕ
  | [], k => some k
  | i :: is, k =>
    if i.takes ≤ k ∧ k - i.takes + i.gives ≤ finshStackMax then depth is (k - i.takes + i.gives)
    else none

/-- The code of a listing. -/
def listingBytes (is : List Instr) : List UInt8 := is.flatMap Instr.bytes

@[simp] theorem listingBytes_cons (i : Instr) (is : List Instr) :
    listingBytes (i :: is) = i.bytes ++ listingBytes is := rfl

@[simp] theorem listingBytes_append (is is' : List Instr) :
    listingBytes (is ++ is') = listingBytes is ++ listingBytes is' :=
  flatMap_append

theorem depth_cons {i : Instr} {m n : ℕ} (hm : i.takes = m) (hn : i.gives = n) (is : List Instr)
    (k : ℕ) : depth (i :: is) k =
      if m ≤ k ∧ k - m + n ≤ finshStackMax then depth is (k - m + n) else none := by
  rw [depth, hm, hn]

theorem depth_append (is is' : List Instr) (k : ℕ) :
    depth (is ++ is') k = (depth is k).bind (depth is') := by
  induction is generalizing k with
  | nil => rfl
  | cons i is ih =>
    rw [cons_append, depth, depth]
    split
    · exact ih _
    · rfl

/-! ### Moves of the stack pointer -/

open FinshVm

variable {sys : Syscalls} {text : List UInt8} {s s' : FinshVm} {i : Instr} {is : List Instr}
  {k n : ℕ}

@[simp] theorem setStack_pc (w : Width) (j : ℤ) (x : BitVec 32) : (s.setStack w j x).pc = s.pc :=
  rfl

@[simp] theorem setStack_sp (w : Width) (j : ℤ) (x : BitVec 32) : (s.setStack w j x).sp = s.sp :=
  rfl

@[simp] theorem setStack_escaped (w : Width) (j : ℤ) (x : BitVec 32) :
    (s.setStack w j x).escaped = s.escaped :=
  rfl

@[simp] theorem moveSp_pc (d : ℤ) : (s.moveSp d).pc = s.pc := rfl

@[simp] theorem moveSp_sp (d : ℤ) : (s.moveSp d).sp = s.sp + d := rfl

theorem moveSp_escaped (d : ℤ) : (s.moveSp d).escaped =
    (s.escaped || decide (¬ (0 ≤ s.sp + d ∧ s.sp + d ≤ finshStackMax))) :=
  rfl

theorem params_eq (n : ℕ) (s : FinshVm) (ps : List (BitVec 32)) (hsp : s.sp ≤ finshStackMax) :
    (params n s ps).1.pc = s.pc ∧ (params n s ps).1.sp = s.sp - n ∧
      (params n s ps).1.escaped = (s.escaped || decide (0 < n ∧ s.sp < n)) := by
  induction n generalizing s ps with
  | zero => simp [params]
  | succ n ih =>
    obtain ⟨hpc, hsp', hescaped⟩ := ih (s.moveSp (-1)) (s.stack s.sp :: ps)
      (by rw [moveSp_sp]; omega)
    rw [params, hpc, hsp', hescaped]
    refine ⟨rfl, by rw [moveSp_sp]; push_cast; ring, ?_⟩
    rw [moveSp_sp, moveSp, Bool.or_assoc, ← Bool.decide_or]
    congr 2
    apply propext
    push_cast
    omega

/-- From `s` to `s'`, `len` bytes of code have moved the stack pointer down and up. -/
structure Moved (s s' : FinshVm) (len takes gives : ℕ) : Prop where
  pc : s'.pc = s.pc + len
  sp : s'.sp = s.sp - takes + gives
  escaped : s'.escaped =
    (s.escaped || decide (¬ ((takes : ℤ) ≤ s.sp ∧ s.sp - takes + gives ≤ finshStackMax)))

theorem operand_call {c b : UInt8} (hcode : CodeAt text s.pc [c, b]) :
    operand text { s with pc := s.pc + 1 } 1 =
      ({ s with pc := s.pc + 1 + 1 }, BitVec.ofNat 32 b.toNat) := by
  have hb : CodeAt text (s.pc + 1) [b] := hcode.right (a := [c])
  simp only [operand, ByteMemory.load, hb.getD]
  rfl

theorem moved_op (sys : Syscalls) (hcode : CodeAt text s.pc i.bytes) (h0 : 0 ≤ s.sp)
    (hsp : s.sp ≤ finshStackMax) :
    Moved s (i.op.run sys text { s with pc := s.pc + 1 }) i.bytes.length i.takes i.gives := by
  obtain ⟨op, arg, hlen⟩ := i
  have hbytes : (Instr.bytes ⟨op, arg, hlen⟩).length = op.operandSize + 1 := by
    rw [Instr.bytes, length_cons, hlen]
  rw [hbytes]
  cases op with
  | noOp | bw w | ldValueStack w =>
    refine ⟨rfl, ?_, ?_⟩
    · simp [VmOp.run, Instr.takes, Instr.gives]
    · simp [VmOp.run, Instr.takes, Instr.gives, h0, hsp]
  | bin op w | st w | pop =>
    refine ⟨rfl, ?_, ?_⟩
    · simp [VmOp.run, Instr.takes, Instr.gives, sub_eq_add_neg]
    · simp only [VmOp.run, Instr.takes, Instr.gives, moveSp, setStack_escaped, setStack_sp]
      congr 2
      apply propext
      push_cast
      omega
  | ld w | ldValue w =>
    refine ⟨?_, ?_, ?_⟩
    · exact Nat.add_right_comm s.pc 1 _
    · simp [VmOp.run, operand, Instr.takes, Instr.gives]
    · simp only [VmOp.run, operand, Instr.takes, Instr.gives, moveSp, setStack_escaped, setStack_sp]
      congr 2
      apply propext
      push_cast
      omega
  | call =>
    obtain ⟨b, rfl⟩ := length_eq_one_iff.mp hlen
    have hb : (BitVec.ofNat 32 b.toNat).toNat = b.toNat := by
      rw [BitVec.toNat_ofNat]
      exact mod_eq_of_lt (b.toNat_lt.trans (by decide))
    -- the pointer to the function is taken before the parameters
    obtain ⟨s₁, hs₁⟩ : ∃ s₁, moveSp { s with pc := s.pc + 1 + 1 } (-1) = s₁ := ⟨_, rfl⟩
    have hpc₁ : s₁.pc = s.pc + 2 := by rw [← hs₁]; rfl
    have hsp₁ : s₁.sp = s.sp - 1 := by rw [← hs₁]; rfl
    have hescaped₁ : s₁.escaped =
        (s.escaped || decide (¬ (0 ≤ s.sp - 1 ∧ s.sp - 1 ≤ finshStackMax))) := by rw [← hs₁]; rfl
    obtain ⟨hpc, hsp', hescaped⟩ := params_eq b.toNat s₁ [] (by omega)
    simp only [VmOp.run, operand_call hcode, hb, hs₁]
    refine ⟨?_, ?_, ?_⟩
    · rw [moveSp_pc, setStack_pc, hpc, hpc₁]
      rfl
    · rw [moveSp_sp, setStack_sp, hsp', hsp₁]
      simp only [Instr.takes, Instr.gives, getD_cons_zero]
      push_cast
      ring
    · rw [moveSp_escaped, setStack_sp, setStack_escaped]
      simp only [hescaped, hsp', hsp₁, hescaped₁, Instr.takes, Instr.gives, getD_cons_zero]
      rw [Bool.or_assoc, Bool.or_assoc, ← Bool.decide_or, ← Bool.decide_or]
      congr 2
      apply propext
      push_cast
      omega

/-! ### The run of a listing -/

/-- What is said of a run of a listing from a depth. -/
def Reaches (sys : Syscalls) (text : List UInt8) (s : FinshVm) (len : ℕ) : Option ℕ → Prop
  | some k => ∃ n ≤ len, ∃ s', Runs sys text n s s' ∧ s'.pc = s.pc + len ∧ s'.sp = k ∧
    s'.escaped = s.escaped
  | none => ∃ n ≤ len, ∃ s', Runs sys text n s s' ∧ s'.escaped = true

theorem run_listing (sys : Syscalls) (hcode : CodeAt text s.pc (listingBytes is))
    (htext : s.pc + (listingBytes is).length ≤ finshTextMax) (hsp : s.sp = k)
    (hk : k ≤ finshStackMax) :
    Reaches sys text s (listingBytes is).length (depth is k) := by
  induction is generalizing s k with
  | nil => exact ⟨0, le_rfl, s, Runs.refl s, rfl, hsp, rfl⟩
  | cons i is ih =>
    rw [listingBytes_cons] at hcode htext ⊢
    have hpos : 0 < i.bytes.length := succ_pos _
    rw [length_append] at htext ⊢
    have hmoved := moved_op sys hcode.left (by omega) (by omega)
    have hruns : Runs sys text 1 s (i.op.run sys text { s with pc := s.pc + 1 }) :=
      runs_op sys hcode.left (by omega)
    generalize i.op.run sys text { s with pc := s.pc + 1 } = s₁ at hmoved hruns
    obtain ⟨hpc, hsp₁, hescaped⟩ := hmoved
    rw [depth]
    split
    · next hstep =>
      have hin : (i.takes : ℤ) ≤ s.sp ∧ s.sp - i.takes + i.gives ≤ finshStackMax := by omega
      rw [decide_eq_false (not_not_intro hin), Bool.or_false] at hescaped
      have hrest := ih (s := s₁) (k := k - i.takes + i.gives) (by rw [hpc]; exact hcode.right)
        (by omega) (by omega) hstep.2
      generalize depth is (k - i.takes + i.gives) = d at hrest
      cases d with
      | none =>
        obtain ⟨n, hn, s₂, hruns₂, h₂⟩ := hrest
        exact ⟨n + 1, by omega, s₂, hruns.trans hruns₂, h₂⟩
      | some k' =>
        obtain ⟨n, hn, s₂, hruns₂, hpc₂, hsp₂, h₂⟩ := hrest
        exact ⟨n + 1, by omega, s₂, hruns.trans hruns₂, by omega, hsp₂, h₂.trans hescaped⟩
    · next hstep =>
      have hout : ¬ ((i.takes : ℤ) ≤ s.sp ∧ s.sp - i.takes + i.gives ≤ finshStackMax) := by omega
      rw [decide_eq_true hout, Bool.or_true] at hescaped
      exact ⟨1, by omega, s₁, hruns, hescaped⟩

/-! ### The whole run -/

theorem escaped_moveSp_of {d : ℤ} (h : s.escaped = true) : (s.moveSp d).escaped = true := by
  rw [moveSp_escaped, h, Bool.true_or]

theorem escaped_params (n : ℕ) (ps : List (BitVec 32)) (h : s.escaped = true) :
    (params n s ps).1.escaped = true := by
  induction n generalizing s ps with
  | zero => exact h
  | succ n ih => exact ih _ (escaped_moveSp_of h)

theorem escaped_round (h : s.escaped = true) : (s.round sys text).escaped = true := by
  rw [FinshVm.round]
  split
  · next op _ =>
    cases op with
    | noOp | bw w | ldValueStack w => exact h
    | bin op w | st w | pop | ld w | ldValue w =>
      simp [VmOp.run, moveSp, operand, h]
    | call =>
      exact escaped_moveSp_of (escaped_params _ _ (escaped_moveSp_of h))
  · exact h

theorem escaped_loop (n : ℕ) (h : s.escaped = true) : (loop sys text n s).escaped = true := by
  induction n generalizing s with
  | zero => exact h
  | succ n ih =>
    rw [loop]
    split
    · exact ih (escaped_round h)
    · exact h

/-- **The stack pointer leaves the stack if and only if the listing has no depth.** -/
theorem escaped_finshVmRun (sys : Syscalls) (stack : ℤ → BitVec 32) (mem : ℕ → UInt8)
    (hlen : (listingBytes is).length ≤ finshTextMax) :
    (finshVmRun sys (textSegment (listingBytes is)) stack mem).escaped = (depth is 0).isNone := by
  have hcode : CodeAt (textSegment (listingBytes is)) 0 (listingBytes is) := ⟨_, rfl⟩
  have hreach := run_listing sys (s := ⟨0, 0, stack, mem, false⟩) hcode (by simpa using hlen) rfl
    (Nat.zero_le _)
  rw [finshVmRun]
  generalize depth is 0 = d at hreach
  cases d with
  | none =>
    obtain ⟨n, hn, s, hruns, h⟩ := hreach
    have hrounds := hruns (finshTextMax - n)
    rw [Nat.sub_add_cancel (by omega)] at hrounds
    rw [hrounds]
    exact escaped_loop _ h
  | some k =>
    obtain ⟨n, hn, s, hruns, hpc, hsp, h⟩ := hreach
    have hpc' : s.pc = (listingBytes is).length := by rw [hpc, Nat.zero_add]
    have hzero : ∀ i, s.pc ≤ i → (textSegment (listingBytes is)).getD i 0 = 0 := by
      intro i hi
      rw [textSegment, getD_eq_getElem?_getD, getElem?_append_right (by omega), getElem?_replicate]
      split <;> rfl
    have hall := hruns.trans (runs_noOp sys hzero (by omega))
    have hrounds := hall (finshTextMax - (finshTextMax - s.pc + n))
    rw [Nat.sub_add_cancel (by omega), loop_of_le (s := { s with pc := finshTextMax }) le_rfl]
      at hrounds
    rw [hrounds]
    exact h

end RtThread
