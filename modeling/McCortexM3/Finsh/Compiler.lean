import McCortexM3.Finsh.Vm

/-!
# The compiler of finsh

`finsh_type_check`, `finsh_compile` and `finsh_compiler_run` of `finsh_compiler.c`.  The nodes of a
tree hang together by their first child and their next sibling.  What is written through
`finsh_compile_pc` is a list of bytes, however long.

## Main definitions

* `FinshTree` — the trees.
* `typeCheck`, `compile`, `compilerRun` — the functions.
-/

set_option linter.all false

namespace RtThread

/-! ### Trees -/

/-- The node types of `finsh_node.h`. -/
inductive NodeType
  | id
  | valueChar
  | valueInt
  | valueLong
  | valueString
  | valueNull
  | sysAdd
  | sysSub
  | sysMul
  | sysDiv
  | sysMod
  | sysAnd
  | sysOr
  | sysXor
  | sysBitwise
  | sysShl
  | sysShr
  | sysFunc
  | sysAssign
  | sysCast
  | sysPreinc
  | sysPredec
  | sysInc
  | sysDec
  | sysGetvalue
  | sysGetaddr
  | sysNull
  deriving DecidableEq

/-- The node type of an operation. -/
def BinOp.nodeType : BinOp → NodeType
  | .add => .sysAdd
  | .sub => .sysSub
  | .div => .sysDiv
  | .mod => .sysMod
  | .mul => .sysMul
  | .and => .sysAnd
  | .or => .sysOr
  | .xor => .sysXor
  | .shl => .sysShl
  | .shr => .sysShr

/-- An `enum finsh_type`. -/
inductive FinshType
  | unknown
  | void
  | voidp
  | char
  | uchar
  | charp
  | short
  | ushort
  | shortp
  | int
  | uint
  | intp
  | long
  | ulong
  | longp
  deriving DecidableEq

/-- `FINSH_IDTYPE_VAR`, `FINSH_IDTYPE_SYSVAR` and `FINSH_IDTYPE_SYSCALL`. -/
inductive IdType
  | var
  | sysvar
  | syscall
  deriving DecidableEq

/-- What `id` of a node points to: the type of a variable, the address of the variable or of the
function, and the address of `id.var->value`, which is the variable only for `FINSH_IDTYPE_VAR`. -/
structure FinshSymbol where
  idtype : IdType
  type : FinshType
  address : BitVec 32
  asVar : BitVec 32
  deriving DecidableEq

/-- A `struct finsh_node` but for its links; `isAddr` is the bit `FINSH_IDTYPE_ADDRESS` of
`idtype`. -/
structure FinshNode where
  nodeType : NodeType
  dataType : ℕ
  isAddr : Bool
  value : BitVec 32
  symbol : Option FinshSymbol
  deriving DecidableEq

namespace FinshNode

/-- A node of a type, as `finsh_node_allocate` returns it. -/
def sys (nodeType : NodeType) : FinshNode := ⟨nodeType, 0, false, 0, none⟩

/-- A node for a constant. -/
def const (nodeType : NodeType) (v : BitVec 32) : FinshNode := ⟨nodeType, 0, false, v, none⟩

/-- A node for an identifier. -/
def ident (s : FinshSymbol) : FinshNode := ⟨.id, 0, false, 0, some s⟩

end FinshNode

/-- `FINSH_NODE_MAX`. -/
def finshNodeMax : ℕ := 16

/-- A node with its child and its sibling. -/
inductive FinshTree
  | null
  | node (d : FinshNode) (child sibling : FinshTree)
  deriving DecidableEq

/-- `FINSH_DATA_TYPE_VOID`, `FINSH_DATA_TYPE_BYTE`, `FINSH_DATA_TYPE_WORD` and
`FINSH_DATA_TYPE_DWORD`. -/
def finshDataTypeVoid : ℕ := 0
@[inherit_doc finshDataTypeVoid] def finshDataTypeByte : ℕ := 1
@[inherit_doc finshDataTypeVoid] def finshDataTypeWord : ℕ := 2
@[inherit_doc finshDataTypeVoid] def finshDataTypeDword : ℕ := 3

/-! ### The check of the types -/

/-- The data type of a variable; that of the node stays for a variable of an unknown type. -/
def FinshType.dataType (old : ℕ) : FinshType → ℕ
  | .unknown => old
  | .void => finshDataTypeVoid
  | .char | .uchar => finshDataTypeByte
  | .short | .ushort => finshDataTypeWord
  | .int | .uint | .long | .ulong => finshDataTypeDword
  | .charp | .voidp | .shortp | .intp | .longp => finshDataTypeDword

namespace FinshNode

/-- `idtype |= is_addr`, but for `FINSH_IDTYPE_SYSCALL`. -/
def setAddr (d : FinshNode) (isAddr : Bool) : FinshNode :=
  if d.symbol.any (·.idtype = .syscall) then d else { d with isAddr := d.isAddr || isAddr }

/-- The data type of a node without a child. -/
def leafType (d : FinshNode) : ℕ :=
  match d.nodeType with
  | .id =>
    match d.symbol with
    | some s => if s.idtype = .syscall then d.dataType else s.type.dataType d.dataType
    | none => d.dataType
  | .valueChar => finshDataTypeByte
  | .valueInt | .valueLong | .valueString | .valueNull => finshDataTypeDword
  | _ => d.dataType

/-- Whether the child of a node is checked as an address. -/
def childAddr (d : FinshNode) (isAddr : Bool) : Bool :=
  if d.nodeType = .sysAssign ∨ d.nodeType = .sysPreinc ∨ d.nodeType = .sysPredec ∨
      d.nodeType = .sysGetaddr then true
  else if d.nodeType = .sysGetvalue ∧ isAddr = true then false
  else isAddr

end FinshNode

/-- `finsh_type_check`. -/
def typeCheck : FinshTree → Bool → FinshTree
  | .null, _ => .null
  | .node d child sibling, isAddr =>
    let child' := typeCheck child (d.childAddr isAddr)
    let sibling' := typeCheck sibling false
    let d := d.setAddr isAddr
    match child' with
    | .node c _ _ => .node { d with dataType := c.dataType } child' sibling'
    | .null => .node { d with dataType := d.leafType } child' sibling'

/-! ### Code -/

/-- The number that `finsh_ops.h` gives an operation. -/
def VmOp.opcode : VmOp → UInt8
  | .noOp => 0x00
  | .bin op w =>
    let base : UInt8 := match op with
      | .add => 0x01
      | .sub => 0x04
      | .div => 0x07
      | .mod => 0x0A
      | .mul => 0x0D
      | .and => 0x10
      | .or => 0x13
      | .xor => 0x16
      | .shl => 0x1C
      | .shr => 0x1F
    base + offset w
  | .bw w => 0x19 + offset w
  | .ld w => 0x22 + offset w
  | .ldValue w => 0x25 + offset w
  | .st w => 0x28 + offset w
  | .pop => 0x2B
  | .call => 0x2C
  | .ldValueStack w => 0x2D + offset w
where
  offset : Width → UInt8
    | .byte => 0
    | .word => 1
    | .dword => 2

theorem opTable_opcode (op : VmOp) : opTable[op.opcode.toNat]? = some op := by
  cases op with
  | bin op w => cases op <;> cases w <;> rfl
  | noOp | pop | call => rfl
  | bw w | ld w | ldValue w | st w | ldValueStack w => cases w <;> rfl

/-- The lowest `n` bytes of a number, as `finsh_code_byte`, `finsh_code_word` and
`finsh_code_dword` write them. -/
def codeBytes (v : BitVec 32) : ℕ → List UInt8
  | 0 => []
  | n + 1 => UInt8.ofNat v.toNat :: codeBytes (v >>> 8) n

/-- What has been emitted, and whether `finsh_error_set` has been called. -/
structure Emitted where
  code : List UInt8
  error : Bool
  deriving DecidableEq

instance : Append Emitted := ⟨fun a b => ⟨a.code ++ b.code, a.error || b.error⟩⟩

/-- Code without an error. -/
def emit (code : List UInt8) : Emitted := ⟨code, false⟩

/-- An operation with an address or another operand of four bytes. -/
def opDword (op : VmOp) (v : BitVec 32) : List UInt8 := op.opcode :: codeBytes v 4

/-- The width of a data type. -/
def dataWidth (dataType : ℕ) : Option Width :=
  if dataType = finshDataTypeByte then some .byte
  else if dataType = finshDataTypeWord then some .word
  else if dataType = finshDataTypeDword then some .dword
  else none

/-- The width with which a variable is loaded; there is none for `finsh_type_void`,
`finsh_type_voidp` and `finsh_type_unknown`. -/
def FinshType.loadWidth : FinshType → Option Width
  | .char | .uchar => some .byte
  | .short | .ushort => some .word
  | .int | .uint | .long | .ulong | .charp | .shortp | .intp | .longp => some .dword
  | .unknown | .void | .voidp => none

namespace FinshNode

/-- An identifier: the address of a function, the address of a variable, or its value. -/
def compileId (d : FinshNode) : List UInt8 :=
  match d.symbol with
  | none => []
  | some s =>
    match s.idtype with
    | .syscall => opDword (.ld .dword) s.address
    | .sysvar | .var =>
      match s.type.loadWidth with
      | none => []
      | some w => opDword (if d.isAddr = true then .ld .dword else .ldValue w) s.address

/-- An operation of the width of the node, if it has one. -/
def compileOp (d : FinshNode) (op : Width → VmOp) : List UInt8 :=
  match dataWidth d.dataType with
  | some w => [(op w).opcode]
  | none => []

/-- The store of an assignment to something of this data type, and the value again. -/
def compileStore (dataType : ℕ) : Emitted :=
  match dataWidth dataType with
  | some w => emit [(VmOp.st w).opcode, (VmOp.ldValueStack w).opcode]
  | none => ⟨[], true⟩

/-- An assignment. -/
def compileAssign : FinshTree → Emitted
  | .node c _ _ =>
    if c.nodeType = .id then compileStore c.dataType
    else if c.nodeType = .sysGetvalue then compileStore (c.dataType &&& 0x0F)
    else emit []
  | .null => emit []

/-- `++` and `--` in front of an identifier. -/
def compilePre (d : FinshNode) (op : BinOp) : FinshTree → List UInt8
  | .node c _ _ =>
    if c.nodeType = .id then
      match dataWidth d.dataType, c.symbol with
      | some w, some s =>
        opDword (.ldValue w) s.asVar ++ (VmOp.ld w).opcode :: codeBytes 1 w.bytes ++
          [(VmOp.bin op w).opcode, (VmOp.st w).opcode, (VmOp.ldValueStack .dword).opcode]
      | _, _ => []
    else []
  | .null => []

/-- `++` and `--` behind an identifier. -/
def compilePost (d : FinshNode) (op : BinOp) : FinshTree → List UInt8
  | .node c _ _ =>
    if c.nodeType = .id then
      match dataWidth d.dataType, c.symbol with
      | some w, some s =>
        opDword (.ld .dword) s.asVar ++ opDword (.ldValue w) s.asVar ++
          (VmOp.ld w).opcode :: codeBytes 1 w.bytes ++
          [(VmOp.bin op w).opcode, (VmOp.st w).opcode, VmOp.pop.opcode]
      | _, _ => []
    else []
  | .null => []

end FinshNode

/-- The number of siblings. -/
def FinshTree.siblings : FinshTree → ℕ
  | .null => 0
  | .node _ _ sibling => if sibling = .null then 0 else sibling.siblings + 1

namespace FinshNode

/-- The call of a function. -/
def compileFunc (child : FinshTree) : List UInt8 :=
  if child ≠ .null then [VmOp.call.opcode, UInt8.ofNat child.siblings] else []

/-- The code of the node itself, behind that of its child. -/
def compileSelf (d : FinshNode) (child : FinshTree) : Emitted :=
  match d.nodeType with
  | .id => emit d.compileId
  | .valueChar => emit ((VmOp.ld .byte).opcode :: codeBytes d.value 1)
  | .valueInt | .valueLong => emit (opDword (.ld .dword) d.value)
  | .valueNull | .valueString => emit (opDword (.ld .dword) d.value)
  | .sysAdd => emit (d.compileOp (.bin .add))
  | .sysSub => emit (d.compileOp (.bin .sub))
  | .sysMul => emit (d.compileOp (.bin .mul))
  | .sysDiv => emit (d.compileOp (.bin .div))
  | .sysMod => emit (d.compileOp (.bin .mod))
  | .sysAnd => emit (d.compileOp (.bin .and))
  | .sysOr => emit (d.compileOp (.bin .or))
  | .sysXor => emit (d.compileOp (.bin .xor))
  | .sysBitwise => emit (d.compileOp .bw)
  | .sysShl => emit (d.compileOp (.bin .shl))
  | .sysShr => emit (d.compileOp (.bin .shr))
  | .sysFunc => emit (compileFunc child)
  | .sysAssign => compileAssign child
  | .sysPreinc => emit (d.compilePre .add child)
  | .sysPredec => emit (d.compilePre .sub child)
  | .sysInc => emit (d.compilePost .add child)
  | .sysDec => emit (d.compilePost .sub child)
  | .sysNull => emit (codeBytes 0 4)
  | .sysGetvalue => emit (if d.isAddr = true then [] else d.compileOp .ldValueStack)
  | .sysGetaddr => emit []
  | .sysCast => ⟨[], true⟩

end FinshNode

/-- `finsh_compile`. -/
def compile : FinshTree → Emitted
  | .null => emit []
  | .node d child sibling => compile child ++ d.compileSelf child ++ compile sibling

/-- The loop of `finsh_compiler_run`. -/
def compileStatements : FinshTree → Emitted
  | .null => emit []
  | .node d child sibling =>
    compile (.node d child .null) ++ emit (if sibling ≠ .null then [VmOp.pop.opcode] else []) ++
      compileStatements sibling

/-- `finsh_compiler_run`. -/
def compilerRun (root : FinshTree) : Emitted := compileStatements (typeCheck root false)

/-- The text segment: what is behind the code is zero. -/
def textSegment (code : List UInt8) : List UInt8 :=
  code ++ List.replicate (finshTextMax - code.length) 0

end RtThread
