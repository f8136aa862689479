import McCortexM3.ByteMemory

/-!
# The virtual machine of finsh

The operations of `finsh_ops.c` and the loop of `finsh_vm.c`.  An operation of one or two bytes
leaves the other bytes of a `union finsh_value` as they are.  The stack pointer is an index that may
be anything; what is beside the stack is memory like any other.

`char` has no sign and `long` has 32 bits, as on the processor; so has the quotient by zero, which
is zero there.

## Main definitions

* `VmOp`, `opTable` — the operations, and `op_table`.
* `FinshVm`, `VmOp.run` — the state of the machine, and what an operation does to it.
* `FinshVm.loop`, `finshVmRun` — the loop.
-/

set_option linter.all false

namespace RtThread

/-! ### Operations -/

/-- The operations of `OP_BIN_BYTE`, `OP_BIN_WORD` and `OP_BIN_DWORD`. -/
inductive BinOp
  | add
  | sub
  | div
  | mod
  | mul
  | and
  | or
  | xor
  | shl
  | shr
  deriving DecidableEq

/-- The width of an operation. -/
inductive Width
  | byte
  | word
  | dword
  deriving DecidableEq

/-- The functions of `finsh_ops.c`. -/
inductive VmOp
  | noOp
  | bin (op : BinOp) (w : Width)
  | bw (w : Width)
  | ld (w : Width)
  | ldValue (w : Width)
  | st (w : Width)
  | pop
  | call
  | ldValueStack (w : Width)
  deriving DecidableEq

/-- `op_table`. -/
def opTable : List VmOp :=
  [.noOp,
    .bin .add .byte, .bin .add .word, .bin .add .dword,
    .bin .sub .byte, .bin .sub .word, .bin .sub .dword,
    .bin .div .byte, .bin .div .word, .bin .div .dword,
    .bin .mod .byte, .bin .mod .word, .bin .mod .dword,
    .bin .mul .byte, .bin .mul .word, .bin .mul .dword,
    .bin .and .byte, .bin .and .word, .bin .and .dword,
    .bin .or .byte, .bin .or .word, .bin .or .dword,
    .bin .xor .byte, .bin .xor .word, .bin .xor .dword,
    .bw .byte, .bw .word, .bw .dword,
    .bin .shl .byte, .bin .shl .word, .bin .shl .dword,
    .bin .shr .byte, .bin .shr .word, .bin .shr .dword,
    .ld .byte, .ld .word, .ld .dword,
    .ldValue .byte, .ldValue .word, .ldValue .dword,
    .st .byte, .st .word, .st .dword,
    .pop, .call,
    .ldValueStack .byte, .ldValueStack .word, .ldValueStack .dword]

namespace Width

/-- The number of bytes. -/
def bytes : Width → ℕ
  | .byte => 1
  | .word => 2
  | .dword => 4

/-- The value of this width in a `union finsh_value`, after the integer promotions. -/
def get (w : Width) (v : BitVec 32) : BitVec 32 :=
  match w with
  | .byte => (v.setWidth 8).setWidth 32
  | .word => (v.setWidth 16).signExtend 32
  | .dword => v

/-- A `union finsh_value` after `x` has been assigned to its value of this width. -/
def set (w : Width) (v x : BitVec 32) : BitVec 32 :=
  match w with
  | .byte => (v &&& 0xFFFFFF00#32) ||| (x.setWidth 8).setWidth 32
  | .word => (v &&& 0xFFFF0000#32) ||| (x.setWidth 16).setWidth 32
  | .dword => x

end Width

/-- The operation on two values of type `int` or `long`. -/
def BinOp.eval (x y : BitVec 32) : BinOp → BitVec 32
  | .add => x + y
  | .sub => x - y
  | .div => x.sdiv y
  | .mod => x.srem y
  | .mul => x * y
  | .and => x &&& y
  | .or => x ||| y
  | .xor => x ^^^ y
  | .shl => x <<< y.toNat
  | .shr => x.sshiftRight y.toNat

/-! ### The machine -/

/-- `FINSH_TEXT_MAX`. -/
def finshTextMax : ℕ := 128

/-- `FINSH_STACK_MAX`. -/
def finshStackMax : ℕ := 64

/-- The state of the machine: `finsh_sp` and `finsh_pc` as indices, `finsh_vm_stack` with what is
beside it, the memory of the variables, and whether `finsh_sp` has been moved out of the stack. -/
structure FinshVm where
  sp : ℤ
  pc : ℕ
  stack : ℤ → BitVec 32
  mem : ℕ → UInt8
  escaped : Bool

/-- What a function of the system call table does: its address, the parameters and the memory give
its result and the memory that it leaves. -/
abbrev Syscalls := BitVec 32 → List (BitVec 32) → (ℕ → UInt8) → BitVec 32 × (ℕ → UInt8)

/-- The value of the width at the address. -/
def loadValue (mem : ℕ → UInt8) (w : Width) (a : BitVec 32) : BitVec 32 :=
  BitVec.ofNat 32 (ByteMemory.load mem a.toNat w.bytes)

/-- The value is stored with the width at the address. -/
def storeValue (mem : ℕ → UInt8) (w : Width) (a v : BitVec 32) : ℕ → UInt8 :=
  ByteMemory.store mem a.toNat w.bytes v.toNat

namespace FinshVm

/-- `finsh_sp` is moved; one past the end of the stack is its end. -/
def moveSp (s : FinshVm) (d : ℤ) : FinshVm :=
  { s with sp := s.sp + d
           escaped := s.escaped || decide (¬ (0 ≤ s.sp + d ∧ s.sp + d ≤ finshStackMax)) }

/-- A value of the width is assigned to the stack at index `i`. -/
def setStack (s : FinshVm) (w : Width) (i : ℤ) (x : BitVec 32) : FinshVm :=
  { s with stack := Function.update s.stack i (w.set (s.stack i) x) }

/-- The operand of `n` bytes at `finsh_pc`, behind which `finsh_pc` moves. -/
def operand (text : List UInt8) (s : FinshVm) (n : ℕ) : FinshVm × BitVec 32 :=
  ({ s with pc := s.pc + n }, BitVec.ofNat 32 (ByteMemory.load (fun i => text.getD i 0) s.pc n))

/-- The loop of `OP_call` that reads the parameters. -/
def params : ℕ → FinshVm → List (BitVec 32) → FinshVm × List (BitVec 32)
  | 0, s, ps => (s, ps)
  | n + 1, s, ps => params n (s.moveSp (-1)) (s.stack s.sp :: ps)

end FinshVm

/-- What an operation does, with `finsh_pc` behind its opcode. -/
def VmOp.run (sys : Syscalls) (text : List UInt8) (s : FinshVm) : VmOp → FinshVm
  | .noOp => s
  | .bin op w =>
    (s.setStack w (s.sp - 2)
      (op.eval (w.get (s.stack (s.sp - 2))) (w.get (s.stack (s.sp - 1))))).moveSp (-1)
  | .bw w => s.setStack w (s.sp - 1) (~~~ w.get (s.stack (s.sp - 1)))
  | .ld w =>
    let (s, x) := s.operand text w.bytes
    (s.setStack w s.sp x).moveSp 1
  | .ldValue w =>
    let (s, a) := s.operand text 4
    (s.setStack w s.sp (loadValue s.mem w a)).moveSp 1
  | .st w =>
    { s with mem := storeValue s.mem w (s.stack (s.sp - 2)) (s.stack (s.sp - 1)) }.moveSp (-1)
  | .pop => s.moveSp (-1)
  | .call =>
    let (s, n) := s.operand text 1
    let (s, ps) := (s.moveSp (-1)).params n.toNat []
    let (r, mem) := if ps.length ≤ 16 then sys (s.stack s.sp) ps s.mem else (0, s.mem)
    ({ s with mem := mem }.setStack .dword s.sp r).moveSp 1
  | .ldValueStack w => s.setStack w (s.sp - 1) (loadValue s.mem w (s.stack (s.sp - 1)))

namespace FinshVm

/-- One round of the loop; behind the table there is nothing to call. -/
def round (sys : Syscalls) (text : List UInt8) (s : FinshVm) : FinshVm :=
  match opTable[(text.getD s.pc 0).toNat]? with
  | some op => op.run sys text { s with pc := s.pc + 1 }
  | none => { s with pc := s.pc + 1 }

/-- The loop of `finsh_vm_run`. -/
def loop (sys : Syscalls) (text : List UInt8) : ℕ → FinshVm → FinshVm
  | 0, s => s
  | n + 1, s => if s.pc < finshTextMax then loop sys text n (s.round sys text) else s

end FinshVm

/-- `finsh_vm_run` on a text segment and the memory of the variables.  Every round moves `finsh_pc`,
so that there are `FINSH_TEXT_MAX` rounds at most. -/
def finshVmRun (sys : Syscalls) (text : List UInt8) (stack : ℤ → BitVec 32) (mem : ℕ → UInt8) :
    FinshVm :=
  FinshVm.loop sys text finshTextMax ⟨0, 0, stack, mem, false⟩

end RtThread
