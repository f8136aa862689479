import McCortexM3.Finsh.Expr

/-!
# Expressions on the virtual machine of finsh

The code of an expression pushes its value: it leaves what is below on the stack, and moves the
stack pointer up by one.

## Main definitions

* `FinshVm.Runs` — some rounds of the loop lead from one state to another.
* `Pushed` — what a piece of code does that pushes a value.

## Main results

* `CExpr.run_code` — the code of an expression pushes its value.
* `finshVmRun_expr` — the machine computes the value of an expression, and its memory.
-/

set_option linter.all false

namespace RtThread

open Function Option List Nat ByteMemory
open BitVec (ofInt ofInt_toInt ofNat_toNat setWidth_eq toInt_ofInt)

/-! ### Rounds of the loop -/

variable {sys : Syscalls} {text : List UInt8} {s s' s'' : FinshVm} {k l n : ℕ}

namespace FinshVm

/-- `k` rounds of the loop lead from `s` to `s'`. -/
def Runs (sys : Syscalls) (text : List UInt8) (k : ℕ) (s s' : FinshVm) : Prop :=
  ∀ n, loop sys text (n + k) s = loop sys text n s'

theorem Runs.refl (s : FinshVm) : Runs sys text 0 s s := fun _ => rfl

theorem Runs.trans (h : Runs sys text k s s') (h' : Runs sys text l s' s'') :
    Runs sys text (l + k) s s'' := by
  intro n
  rw [← Nat.add_assoc, h, h']

/-- The code that is in the text from `pc` on. -/
def CodeAt (text : List UInt8) (pc : ℕ) (code : List UInt8) : Prop :=
  ∃ rest, text.drop pc = code ++ rest

variable {pc : ℕ} {a b : List UInt8}

theorem CodeAt.getD {c : UInt8} (h : CodeAt text pc (c :: a)) : text.getD pc 0 = c := by
  obtain ⟨rest, h⟩ := h
  have hc : (text.drop pc)[0]? = some c := by rw [h]; rfl
  rw [getElem?_drop, Nat.add_zero] at hc
  rw [getD_eq_getElem?_getD, hc, getD_some]

theorem CodeAt.left (h : CodeAt text pc (a ++ b)) : CodeAt text pc a := by
  obtain ⟨rest, h⟩ := h
  exact ⟨b ++ rest, by rw [h, append_assoc]⟩

theorem CodeAt.right (h : CodeAt text pc (a ++ b)) : CodeAt text (pc + a.length) b := by
  obtain ⟨rest, h⟩ := h
  refine ⟨rest, ?_⟩
  rw [← drop_drop, h, append_assoc, drop_left]

variable (sys) in
theorem runs_op {op : VmOp} (hcode : CodeAt text s.pc (op.opcode :: a))
    (hpc : s.pc < finshTextMax) :
    Runs sys text 1 s (op.run sys text { s with pc := s.pc + 1 }) := by
  intro n
  rw [loop, if_pos hpc, round, hcode.getD, opTable_opcode]

theorem load_codeBytes {v : BitVec 32} (h : CodeAt text pc (codeBytes v n)) :
    load (fun i => text.getD i 0) pc n = v.toNat % 256 ^ n := by
  induction n generalizing pc v with
  | zero => rw [load, pow_zero, mod_one]
  | succ n ih =>
    have hrest : CodeAt text (pc + 1) (codeBytes (v >>> 8) n) :=
      h.right (a := [UInt8.ofNat v.toNat])
    have hshift : (v >>> 8).toNat = v.toNat / 256 := by
      rw [BitVec.toNat_ushiftRight, shiftRight_eq_div_pow]
    rw [load, ih hrest, h.getD, UInt8.toNat_ofNat', hshift, pow_succ' 256 n]
    exact (mod_mul (a := 256)).symm

theorem operand_eq {v : BitVec 32} (h : CodeAt text s.pc (codeBytes v 4)) :
    s.operand text 4 = ({ s with pc := s.pc + 4 }, v) := by
  have hlt := v.isLt
  rw [operand, load_codeBytes h, mod_eq_of_lt (by omega), ofNat_toNat, setWidth_eq]

end FinshVm

/-! ### Code that pushes a value -/

/-- From `s` to `s'`, `len` bytes of code have pushed `v` and left the memory `mem`. -/
structure Pushed (s s' : FinshVm) (len : ℕ) (v : BitVec 32) (mem : ℕ → UInt8) : Prop where
  pc : s'.pc = s.pc + len
  sp : s'.sp = s.sp + 1
  top : s'.stack s.sp = v
  below : ∀ i < s.sp, s'.stack i = s.stack i
  mem : s'.mem = mem
  escaped : s'.escaped = s.escaped

open FinshVm

theorem escaped_moveSp {d : ℤ} (h : 0 ≤ s.sp + d ∧ s.sp + d ≤ finshStackMax) :
    (s.moveSp d).escaped = s.escaped := by
  simp [moveSp, h]

theorem pushed_setStack (v : BitVec 32) (h0 : 0 ≤ s.sp) (hroom : s.sp + 1 ≤ finshStackMax) :
    Pushed s (({ s with pc := s.pc + 5 }.setStack .dword s.sp v).moveSp 1) 5 v s.mem where
  pc := rfl
  sp := rfl
  top := update_self ..
  below := fun i hi => update_of_ne (by omega) ..
  mem := rfl
  escaped := escaped_moveSp ⟨by exact (by omega : 0 ≤ s.sp + 1), hroom⟩

variable (sys) in
theorem pushed_ld {v : BitVec 32} (hcode : CodeAt text s.pc (opDword (.ld .dword) v))
    (hpc : s.pc < finshTextMax) (h0 : 0 ≤ s.sp) (hroom : s.sp + 1 ≤ finshStackMax) :
    ∃ s', Runs sys text 1 s s' ∧ Pushed s s' 5 v s.mem := by
  have hop : operand text { s with pc := s.pc + 1 } 4 = ({ s with pc := s.pc + 1 + 4 }, v) :=
    operand_eq (hcode.right (a := [_]))
  refine ⟨_, runs_op sys hcode hpc, ?_⟩
  simp only [VmOp.run, Width.bytes, hop]
  exact pushed_setStack v h0 hroom

variable (sys) in
theorem pushed_ldValue {a : BitVec 32} (hcode : CodeAt text s.pc (opDword (.ldValue .dword) a))
    (hpc : s.pc < finshTextMax) (h0 : 0 ≤ s.sp) (hroom : s.sp + 1 ≤ finshStackMax) :
    ∃ s', Runs sys text 1 s s' ∧ Pushed s s' 5 (loadValue s.mem .dword a) s.mem := by
  have hop : operand text { s with pc := s.pc + 1 } 4 = ({ s with pc := s.pc + 1 + 4 }, a) :=
    operand_eq (hcode.right (a := [_]))
  refine ⟨_, runs_op sys hcode hpc, ?_⟩
  simp only [VmOp.run, hop]
  exact pushed_setStack _ h0 hroom

variable (sys) in
theorem pushed_bin {op : BinOp} {x y : BitVec 32} {mem₁ mem₂ : ℕ → UInt8} {n₁ n₂ : ℕ}
    (ha : Pushed s s' n₁ x mem₁) (hb : Pushed s' s'' n₂ y mem₂)
    (hcode : CodeAt text s''.pc [(VmOp.bin op .dword).opcode]) (hpc : s''.pc < finshTextMax)
    (h0 : 0 ≤ s.sp) (hroom : s.sp + 1 ≤ finshStackMax) :
    ∃ t, Runs sys text 1 s'' t ∧ Pushed s t (n₁ + n₂ + 1) (op.eval x y) mem₂ := by
  have hsp : s''.sp = s.sp + 2 := by rw [hb.sp, ha.sp]; ring
  have hx : s''.stack s.sp = x := by rw [hb.below _ (by rw [ha.sp]; omega), ha.top]
  have hy : s''.stack (s.sp + 1) = y := by rw [← ha.sp]; exact hb.top
  have hsub2 : s''.sp - 2 = s.sp := by omega
  have hsub1 : s''.sp - 1 = s.sp + 1 := by omega
  refine ⟨_, runs_op sys hcode hpc, ?_⟩
  simp only [VmOp.run, hsub1, hsub2, hx, hy]
  refine ⟨?_, ?_, update_self .., ?_, hb.mem, ?_⟩
  · change s''.pc + 1 = s.pc + (n₁ + n₂ + 1)
    rw [hb.pc, ha.pc]
    ring
  · change s''.sp + -1 = s.sp + 1
    omega
  · intro i hi
    refine (update_of_ne (by omega) ..).trans ?_
    rw [hb.below i (by rw [ha.sp]; omega), ha.below i hi]
  · refine (escaped_moveSp ?_).trans (hb.escaped.trans ha.escaped)
    change 0 ≤ s''.sp + -1 ∧ s''.sp + -1 ≤ finshStackMax
    omega

variable (sys) in
theorem pushed_bw {x : BitVec 32} {mem₁ : ℕ → UInt8} {n₁ : ℕ} (ha : Pushed s s' n₁ x mem₁)
    (hcode : CodeAt text s'.pc [(VmOp.bw .dword).opcode]) (hpc : s'.pc < finshTextMax) :
    ∃ t, Runs sys text 1 s' t ∧ Pushed s t (n₁ + 1) (~~~ x) mem₁ := by
  have hsub : s'.sp - 1 = s.sp := by rw [ha.sp]; omega
  refine ⟨_, runs_op sys hcode hpc, ?_⟩
  simp only [VmOp.run, hsub, ha.top]
  refine ⟨?_, ha.sp, update_self .., ?_, ha.mem, ha.escaped⟩
  · change s'.pc + 1 = s.pc + (n₁ + 1)
    rw [ha.pc]
    ring
  · intro i hi
    exact (update_of_ne (by omega) ..).trans (ha.below i hi)

theorem loadValue_storeValue (mem : ℕ → UInt8) (a v : BitVec 32) :
    loadValue (storeValue mem .dword a v) .dword a = v := by
  have hlt : v.toNat < 256 ^ Width.dword.bytes := v.isLt
  rw [loadValue, storeValue, load_store_self mem a.toNat hlt, ofNat_toNat, setWidth_eq]

variable (sys) in
theorem pushed_assign {a v : BitVec 32} {mem₁ mem₂ : ℕ → UInt8} {n₁ n₂ : ℕ}
    (ha : Pushed s s' n₁ a mem₁) (hv : Pushed s' s'' n₂ v mem₂)
    (hcode : CodeAt text s''.pc [(VmOp.st .dword).opcode, (VmOp.ldValueStack .dword).opcode])
    (hpc : s''.pc + 1 < finshTextMax) (h0 : 0 ≤ s.sp) (hroom : s.sp + 1 ≤ finshStackMax) :
    ∃ t, Runs sys text 2 s'' t ∧ Pushed s t (n₁ + n₂ + 2) v (storeValue mem₂ .dword a v) := by
  have hsp : s''.sp = s.sp + 2 := by rw [hv.sp, ha.sp]; ring
  have hx : s''.stack s.sp = a := by rw [hv.below _ (by rw [ha.sp]; omega), ha.top]
  have hy : s''.stack (s.sp + 1) = v := by rw [← ha.sp]; exact hv.top
  have hsub2 : s''.sp - 2 = s.sp := by omega
  have hsub1 : s''.sp - 1 = s.sp + 1 := by omega
  have hst := runs_op sys hcode (by omega)
  simp only [VmOp.run, hsub1, hsub2, hx, hy, hv.mem] at hst
  have hld := runs_op sys
    (s := moveSp { s'' with pc := s''.pc + 1, mem := storeValue mem₂ .dword a v } (-1))
    (hcode.right (a := [_])) hpc
  refine ⟨_, hst.trans hld, ?_⟩
  have hsub : s''.sp + -1 - 1 = s.sp := by omega
  simp only [VmOp.run, moveSp, hsub, hx, loadValue_storeValue]
  refine ⟨?_, ?_, update_self .., ?_, rfl, ?_⟩
  · change s''.pc + 1 + 1 = s.pc + (n₁ + n₂ + 2)
    rw [hv.pc, ha.pc]
    ring
  · change s''.sp + -1 = s.sp + 1
    omega
  · intro i hi
    refine (update_of_ne (by omega) ..).trans ?_
    rw [hv.below i (by rw [ha.sp]; omega), ha.below i hi]
  · refine (escaped_moveSp (s := s'') (d := -1) ?_).trans (hv.escaped.trans ha.escaped)
    omega

/-! ### Expressions -/

@[simp] theorem length_opDword (op : VmOp) (v : BitVec 32) : (opDword op v).length = 5 := rfl

namespace CExpr

variable (sys) in
theorem run_code {e : CExpr} {v : ℤ} {m : ℕ → UInt8} (hcode : CodeAt text s.pc e.code)
    (htext : s.pc + e.code.length ≤ finshTextMax) (heval : e.eval s.mem = some (v, m))
    (h0 : 0 ≤ s.sp) (hroom : s.sp + e.nodes ≤ finshStackMax) :
    ∃ k ≤ e.code.length, ∃ s', Runs sys text k s s' ∧ Pushed s s' e.code.length (ofInt 32 v) m := by
  induction e generalizing s v m with
  | int v | long v =>
    cases heval
    rw [code, length_opDword] at htext
    obtain ⟨s', hruns, hpush⟩ := pushed_ld sys hcode (by omega) h0 hroom
    refine ⟨1, succ_le_succ (Nat.zero_le 4), s', hruns, ?_⟩
    rw [ofInt_toInt]
    exact hpush
  | var x =>
    cases heval
    rw [code, length_opDword] at htext
    obtain ⟨s', hruns, hpush⟩ := pushed_ldValue sys hcode (by omega) h0 hroom
    refine ⟨1, succ_le_succ (Nat.zero_le 4), s', hruns, ?_⟩
    rw [ofInt_toInt]
    exact hpush
  | bin op a b iha ihb =>
    simp only [eval, bind_eq_bind, bind_eq_some_iff, Prod.exists] at heval
    obtain ⟨x, m₁, ha, y, m₂, hb, z, hz, heq⟩ := heval
    cases heq
    simp only [code, length_append, length_singleton] at htext ⊢
    simp only [nodes] at hroom
    obtain ⟨k₁, hk₁, s₁, hruns₁, hpush₁⟩ := iha hcode.left.left (by omega) ha h0 (by omega)
    -- the second operand is evaluated above the first
    have hcode₁ : CodeAt text s₁.pc b.code := by
      rw [hpush₁.pc]
      exact hcode.left.right
    obtain ⟨k₂, hk₂, s₂, hruns₂, hpush₂⟩ := ihb hcode₁ (by rw [hpush₁.pc]; omega)
      (by rw [hpush₁.mem]; exact hb) (by rw [hpush₁.sp]; omega) (by rw [hpush₁.sp]; omega)
    have hcode₂ : CodeAt text s₂.pc [(VmOp.bin op .dword).opcode] := by
      rw [hpush₂.pc, hpush₁.pc, Nat.add_assoc, ← length_append]
      exact hcode.right
    obtain ⟨s₃, hruns₃, hpush₃⟩ := pushed_bin sys hpush₁ hpush₂ hcode₂
      (by rw [hpush₂.pc, hpush₁.pc]; omega) h0 (by omega)
    rw [BinOp.eval_of_cEval hz (wrap_of_eval ha) (wrap_of_eval hb)] at hpush₃
    exact ⟨_, by omega, s₃, (hruns₁.trans hruns₂).trans hruns₃, hpush₃⟩
  | neg a ih =>
    simp only [eval, bind_eq_bind, bind_eq_some_iff, Prod.exists] at heval
    obtain ⟨x, m₁, ha, heq⟩ := heval
    cases heq
    simp only [code, length_append, length_singleton, length_opDword] at htext ⊢
    simp only [nodes] at hroom
    obtain ⟨s₁, hruns₁, hpush₁⟩ :=
      pushed_ld sys hcode.left.left (by omega) h0 (by omega)
    have hcode₁ : CodeAt text s₁.pc a.code := by
      rw [hpush₁.pc]
      exact hcode.left.right
    obtain ⟨k₂, hk₂, s₂, hruns₂, hpush₂⟩ := ih hcode₁ (by rw [hpush₁.pc]; omega)
      (by rw [hpush₁.mem]; exact ha) (by rw [hpush₁.sp]; omega) (by rw [hpush₁.sp]; omega)
    have hcode₂ : CodeAt text s₂.pc [(VmOp.bin .sub .dword).opcode] := by
      rw [hpush₂.pc, hpush₁.pc, Nat.add_assoc]
      simpa only [length_append, length_opDword] using hcode.right
    obtain ⟨s₃, hruns₃, hpush₃⟩ := pushed_bin sys hpush₁ hpush₂ hcode₂
      (by rw [hpush₂.pc, hpush₁.pc]; omega) h0 (by omega)
    -- `-x` is `0 - x`
    have hneg : BinOp.eval 0 (ofInt 32 x) .sub = ofInt 32 (wrap (-x)) := by
      rw [← Int.zero_sub]
      exact BinOp.eval_of_cEval (x := 0) rfl rfl (wrap_of_eval ha)
    rw [hneg] at hpush₃
    exact ⟨_, by omega, s₃, (hruns₁.trans hruns₂).trans hruns₃, hpush₃⟩
  | not a ih =>
    simp only [eval, bind_eq_bind, bind_eq_some_iff, Prod.exists] at heval
    obtain ⟨x, m₁, ha, heq⟩ := heval
    cases heq
    simp only [code, length_append, length_singleton] at htext ⊢
    simp only [nodes] at hroom
    obtain ⟨k₁, hk₁, s₁, hruns₁, hpush₁⟩ := ih hcode.left (by omega) ha h0 (by omega)
    have hcode₁ : CodeAt text s₁.pc [(VmOp.bw .dword).opcode] := by
      rw [hpush₁.pc]
      exact hcode.right
    obtain ⟨s₂, hruns₂, hpush₂⟩ := pushed_bw sys hpush₁ hcode₁ (by rw [hpush₁.pc]; omega)
    have hnot : ~~~ ofInt 32 x = ofInt 32 (wrap (-x - 1)) := by
      have hwrap : ofInt 32 (wrap (-x - 1)) = ofInt 32 (-x + -1) := by
        apply BitVec.eq_of_toInt_eq
        rw [toInt_ofInt, toInt_ofInt]
        exact Int.bmod_bmod
      have hone : ofInt 32 (-1) = -1#32 := by decide
      rw [hwrap, BitVec.ofInt_add, BitVec.ofInt_neg, BitVec.not_eq_neg_add, hone,
        BitVec.sub_eq_add_neg]
    rw [hnot] at hpush₂
    exact ⟨_, by omega, s₂, hruns₁.trans hruns₂, hpush₂⟩
  | assign x a ih =>
    simp only [eval, bind_eq_bind, bind_eq_some_iff, Prod.exists] at heval
    obtain ⟨v, m₁, ha, heq⟩ := heval
    cases heq
    simp only [code, length_append, length_cons, length_nil, length_opDword] at htext ⊢
    simp only [nodes] at hroom
    obtain ⟨s₁, hruns₁, hpush₁⟩ :=
      pushed_ld sys hcode.left.left (by omega) h0 (by omega)
    have hcode₁ : CodeAt text s₁.pc a.code := by
      rw [hpush₁.pc]
      exact hcode.left.right
    obtain ⟨k₂, hk₂, s₂, hruns₂, hpush₂⟩ := ih hcode₁ (by rw [hpush₁.pc]; omega)
      (by rw [hpush₁.mem]; exact ha) (by rw [hpush₁.sp]; omega) (by rw [hpush₁.sp]; omega)
    have hcode₂ :
        CodeAt text s₂.pc [(VmOp.st .dword).opcode, (VmOp.ldValueStack .dword).opcode] := by
      rw [hpush₂.pc, hpush₁.pc, Nat.add_assoc]
      simpa only [length_append, length_opDword] using hcode.right
    obtain ⟨s₃, hruns₃, hpush₃⟩ := pushed_assign sys hpush₁ hpush₂ hcode₂
      (by rw [hpush₂.pc, hpush₁.pc]; omega) h0 (by omega)
    exact ⟨_, by omega, s₃, (hruns₁.trans hruns₂).trans hruns₃, hpush₃⟩

/-- An expression of `FINSH_NODE_MAX` nodes fits in the text segment. -/
theorem code_length_le (e : CExpr) : e.code.length ≤ 5 * e.nodes := by
  induction e with
  | int v | long v | var x => rfl
  | bin op a b iha ihb =>
    simp only [code, nodes, length_append, length_singleton]
    omega
  | neg a ih | not a ih =>
    simp only [code, nodes, length_append, length_singleton, length_opDword]
    omega
  | assign x a ih =>
    simp only [code, nodes, length_append, length_cons, length_nil, length_opDword]
    omega

end CExpr

/-! ### The whole run -/

variable (sys) in
theorem runs_noOp (hzero : ∀ i, s.pc ≤ i → text.getD i 0 = 0)
    (hpc : s.pc ≤ finshTextMax) :
    Runs sys text (finshTextMax - s.pc) s { s with pc := finshTextMax } := by
  obtain ⟨d, hd⟩ : ∃ d, finshTextMax - s.pc = d := ⟨_, rfl⟩
  rw [hd]
  induction d generalizing s with
  | zero =>
    have hpc' : s.pc = finshTextMax := by omega
    rw [← hpc']
    exact Runs.refl s
  | succ d ih =>
    have hround : s.round sys text = { s with pc := s.pc + 1 } := by
      rw [FinshVm.round, hzero s.pc le_rfl]
      rfl
    intro n
    rw [← Nat.add_assoc, loop, if_pos (by omega), hround]
    exact ih (s := { s with pc := s.pc + 1 }) (fun i hi => hzero i (by dsimp only at hi; omega))
      (by dsimp only; omega) (by dsimp only; omega) n

theorem loop_of_le (hpc : finshTextMax ≤ s.pc) : loop sys text n s = s := by
  cases n with
  | zero => rfl
  | succ n => rw [loop, if_neg (by omega)]

/-- An expression that fits in the nodes is compiled, and its code fits in the text segment.  The
machine leaves its value at the bottom of the stack, and the variables as C leaves them; the stack
pointer is behind the value. -/
theorem finshVmRun_expr (e : CExpr) (sys : Syscalls) (stack : ℤ → BitVec 32) {v : ℤ}
    {m m' : ℕ → UInt8} (hnodes : e.nodes ≤ finshNodeMax)
    (heval : e.eval m = some (v, m')) :
    (compilerRun (e.tree .null)).error = false ∧
      (compilerRun (e.tree .null)).code.length ≤ finshTextMax ∧
      (finshVmRun sys (textSegment (compilerRun (e.tree .null)).code) stack m).stack 0 =
        ofInt 32 v ∧
      (finshVmRun sys (textSegment (compilerRun (e.tree .null)).code) stack m).mem = m' ∧
      (finshVmRun sys (textSegment (compilerRun (e.tree .null)).code) stack m).sp = 1 ∧
      (finshVmRun sys (textSegment (compilerRun (e.tree .null)).code) stack m).escaped =
        false := by
  rw [e.compilerRun_tree]
  simp only [finshNodeMax] at hnodes
  have hlen : e.code.length ≤ finshTextMax := by
    have hle := e.code_length_le
    rw [finshTextMax]
    omega
  have hroom : (0 : ℤ) + e.nodes ≤ finshStackMax := by
    rw [finshStackMax]
    omega
  have hcode : CodeAt (textSegment e.code) 0 e.code := ⟨_, rfl⟩
  obtain ⟨k, hk, s, hruns, hpush⟩ := CExpr.run_code sys
    (s := ⟨0, 0, stack, m, false⟩) hcode (by simpa using hlen) heval le_rfl hroom
  have hpc : s.pc = e.code.length := by rw [hpush.pc, Nat.zero_add]
  have hzero : ∀ i, s.pc ≤ i → (textSegment e.code).getD i 0 = 0 := by
    intro i hi
    rw [textSegment, getD_eq_getElem?_getD, getElem?_append_right (by omega), getElem?_replicate]
    split <;> rfl
  -- the rounds of the code, those of the zeros, and those that are left
  have hall := hruns.trans (runs_noOp sys hzero (by omega))
  have hrun : finshVmRun sys (textSegment e.code) stack m = { s with pc := finshTextMax } := by
    have hrounds := hall (finshTextMax - (finshTextMax - s.pc + k))
    rw [Nat.sub_add_cancel (by omega), loop_of_le (s := { s with pc := finshTextMax }) le_rfl]
      at hrounds
    exact hrounds
  refine ⟨rfl, hlen, ?_⟩
  simp only [emit, hrun]
  exact ⟨hpush.top, hpush.mem, hpush.sp, hpush.escaped⟩

/-- `-7 / 2` is `-3`. -/
theorem finshVmRun_expr_neg_div :
    (finshVmRun (fun _ _ mem => (0, mem))
        (textSegment (compilerRun ((CExpr.bin .div (.neg (.int 7)) (.int 2)).tree .null)).code)
        (fun _ => 0) fun _ => 0).stack 0 = ofInt 32 (-3) :=
  (finshVmRun_expr (.bin .div (.neg (.int 7)) (.int 2)) (fun _ _ mem => (0, mem)) (fun _ => 0)
    (m := fun _ => 0) (by decide) rfl).2.2.1

/-- The stack pointer does not return to where it has started: the value of a line stays on the
stack, from where it is printed. -/
theorem not_finshVmRun_expr_sp :
    ¬ ∀ (e : CExpr) (sys : Syscalls) (stack : ℤ → BitVec 32) (v : ℤ) (mem mem' : ℕ → UInt8),
      e.nodes ≤ finshNodeMax → e.eval mem = some (v, mem') →
        (finshVmRun sys (textSegment (compilerRun (e.tree .null)).code) stack mem).sp = 0 := by
  intro hall
  exact absurd (hall (.int 1) (fun _ _ mem => (0, mem)) (fun _ => 0) 1 (fun _ => 0) (fun _ => 0)
    (by decide) rfl) (by decide +kernel)

end RtThread
