import McCortexM3.Finsh.Listing
import Mathlib.Data.List.ReduceOption

/-!
# The parts of the code of a line

The compiler goes through the nodes of a line in the order of their evaluation, and emits a piece of
code for each.  A node has a number of bytes, takes values from the stack and gives one back, or
reports an error; the tables are those of `finsh_compile`.

## Main definitions

* `CodePart`, `lineParts` — the nodes of a line, and the `OP_pop` between two statements.
* `FinshNode.size`, `takes`, `gives`, `fails` — what is emitted for a node.
* `supply` — the number of values behind some parts, if each finds what it takes.

## Main results

* `listed_self` — the code of a node is as the tables say.
* `exists_listing` — the depth behind the code of some parts is the number of values.
-/

set_option linter.all false

namespace RtThread

open Option List

/-! ### Tables -/

namespace FinshNode

/-- The data type that an assignment stores, for a child that it can assign to. -/
def assigned : FinshTree → Option ℕ
  | .node c _ _ =>
    if c.nodeType = .id then some c.dataType
    else if c.nodeType = .sysGetvalue then some (c.dataType &&& 0x0F)
    else none
  | .null => none

/-- The width with which `++` and `--` change their child. -/
def stepped (d : FinshNode) : FinshTree → Option Width
  | .node c _ _ => if c.nodeType = .id ∧ c.symbol.isSome = true then dataWidth d.dataType else none
  | .null => none

/-- Whether something is loaded for an identifier. -/
def loaded (d : FinshNode) : Bool :=
  d.symbol.any fun s => s.idtype = .syscall || s.type.loadWidth.isSome

/-- The number of bytes for an operation of the width of the node. -/
def opSize (d : FinshNode) : ℕ := if (dataWidth d.dataType).isSome = true then 1 else 0

/-- Whether an assignment stores something. -/
def stores (child : FinshTree) : Bool := ((assigned child).bind dataWidth).isSome

/-- The number of bytes of the code of a node itself. -/
def size (d : FinshNode) (child : FinshTree) : ℕ :=
  match d.nodeType with
  | .id => if d.loaded = true then 5 else 0
  | .valueChar => 2
  | .valueInt | .valueLong | .valueNull | .valueString => 5
  | .sysFunc => if child = .null then 0 else 2
  | .sysAssign => if stores child = true then 2 else 0
  | .sysPreinc | .sysPredec => ((d.stepped child).map fun w => 9 + w.bytes).getD 0
  | .sysInc | .sysDec => ((d.stepped child).map fun w => 14 + w.bytes).getD 0
  | .sysNull => 4
  | .sysGetvalue => if d.isAddr = true then 0 else d.opSize
  | .sysGetaddr | .sysCast => 0
  | .sysAdd | .sysSub | .sysMul | .sysDiv | .sysMod | .sysAnd | .sysOr | .sysXor | .sysBitwise
  | .sysShl | .sysShr => d.opSize

/-- The number of values that the code of a node takes from the stack, but for those that it puts
back at once. -/
def takes (d : FinshNode) (child : FinshTree) : ℕ :=
  match d.nodeType with
  | .sysFunc => if child = .null then 0 else (UInt8.ofNat child.siblings).toNat + 1
  | .sysAssign => if stores child = true then 1 else 0
  | .sysAdd | .sysSub | .sysMul | .sysDiv | .sysMod | .sysAnd | .sysOr | .sysXor
  | .sysShl | .sysShr => d.opSize
  | _ => 0

/-- The number of values that it gives then. -/
def gives (d : FinshNode) (child : FinshTree) : ℕ :=
  match d.nodeType with
  | .id => if d.loaded = true then 1 else 0
  | .valueChar | .valueInt | .valueLong | .valueNull | .valueString => 1
  | .sysFunc => if child = .null then 0 else 1
  | _ => 0

/-- Whether an error is reported. -/
def fails (d : FinshNode) (child : FinshTree) : Bool :=
  match d.nodeType with
  | .sysAssign => (assigned child).any fun t => (dataWidth t).isNone
  | .sysCast => true
  | _ => false

end FinshNode

/-! ### The code of a node -/

/-- Code with a listing that takes some values and then gives some. -/
def Listed (c : Emitted) (fails : Bool) (size takes gives : ℕ) : Prop :=
  ∃ is, c = ⟨listingBytes is, fails⟩ ∧ (listingBytes is).length = size ∧
    ∀ k, k + 3 ≤ finshStackMax → depth is k = if takes ≤ k then some (k - takes + gives) else none

theorem listed_nothing (fails : Bool) : Listed ⟨[], fails⟩ fails 0 0 0 :=
  ⟨[], rfl, rfl, fun _ _ => rfl⟩

@[simp] theorem length_codeBytes (v : BitVec 32) (n : ℕ) : (codeBytes v n).length = n := by
  induction n generalizing v with
  | zero => rfl
  | succ n ih => rw [codeBytes, length_cons, ih]

/-- The load of a constant, or of an address. -/
def Instr.ld (w : Width) (v : BitVec 32) : Instr := ⟨.ld w, codeBytes v w.bytes, length_codeBytes v _⟩

/-- The load of a variable. -/
def Instr.ldValue (w : Width) (v : BitVec 32) : Instr := ⟨.ldValue w, codeBytes v 4, rfl⟩

/-- An operation on the stack. -/
def Instr.plain (op : VmOp) (h : op.operandSize = 0) : Instr := ⟨op, [], h.symm⟩

theorem listed_ld (w : Width) (v : BitVec 32) :
    Listed (emit ((VmOp.ld w).opcode :: codeBytes v w.bytes)) false (w.bytes + 1) 0 1 := by
  refine ⟨[.ld w v], ?_, ?_, fun k hk => ?_⟩
  · simp [emit, listingBytes, Instr.bytes, Instr.ld]
  · simp [listingBytes, Instr.bytes, Instr.ld]
  · have hroom : k + 1 ≤ finshStackMax := by omega
    simp [depth, Instr.takes, Instr.gives, Instr.ld, hroom]

theorem listed_ldValue (w : Width) (a : BitVec 32) :
    Listed (emit (opDword (.ldValue w) a)) false 5 0 1 := by
  refine ⟨[.ldValue w a], ?_, ?_, fun k hk => ?_⟩
  · simp [emit, listingBytes, Instr.bytes, Instr.ldValue, opDword]
  · simp [listingBytes, Instr.bytes, Instr.ldValue]
  · have hroom : k + 1 ≤ finshStackMax := by omega
    simp [depth, Instr.takes, Instr.gives, Instr.ldValue, hroom]

theorem listed_plain {op : VmOp} (h : op.operandSize = 0) :
    Listed (emit [op.opcode]) false 1 (Instr.plain op h).takes 0 := by
  refine ⟨[.plain op h], rfl, rfl, fun k hk => ?_⟩
  have hgives : (Instr.plain op h).gives = 0 := by
    cases op with
    | ld w => cases w <;> cases h
    | ldValue w | call => cases h
    | _ => rfl
  rw [depth, depth, hgives]
  split
  · rw [if_pos (by omega)]
  · rw [if_neg (by omega)]

variable {d : FinshNode} {child : FinshTree} {op : BinOp} {w : Width}

/-- `++` and `--` in front of a variable leave the stack as it is. -/
theorem listed_pre (op : BinOp) (w : Width) (a : BitVec 32) :
    Listed (emit (opDword (.ldValue w) a ++ (VmOp.ld w).opcode :: codeBytes 1 w.bytes ++
      [(VmOp.bin op w).opcode, (VmOp.st w).opcode, (VmOp.ldValueStack .dword).opcode])) false
      (9 + w.bytes) 0 0 := by
  refine ⟨[.ldValue w a, .ld w 1, .plain (.bin op w) rfl, .plain (.st w) rfl,
    .plain (.ldValueStack .dword) rfl], ?_, ?_, fun k hk => ?_⟩
  · simp [emit, listingBytes, Instr.bytes, Instr.ld, Instr.ldValue, Instr.plain, opDword]
  · simp [listingBytes, Instr.bytes, Instr.ld, Instr.ldValue, Instr.plain]
    omega
  · have hroom₀ : k ≤ finshStackMax := by omega
    have hroom₁ : k + 1 ≤ finshStackMax := by omega
    have hroom₂ : k + 1 + 1 ≤ finshStackMax := by omega
    simp [depth, Instr.takes, Instr.gives, Instr.ld, Instr.ldValue, Instr.plain, hroom₀, hroom₁,
      hroom₂]

theorem listed_post (op : BinOp) (w : Width) (a : BitVec 32) :
    Listed (emit (opDword (.ld .dword) a ++ opDword (.ldValue w) a ++
      (VmOp.ld w).opcode :: codeBytes 1 w.bytes ++
      [(VmOp.bin op w).opcode, (VmOp.st w).opcode, VmOp.pop.opcode])) false
      (14 + w.bytes) 0 0 := by
  refine ⟨[.ld .dword a, .ldValue w a, .ld w 1, .plain (.bin op w) rfl, .plain (.st w) rfl,
    .plain .pop rfl], ?_, ?_, fun k hk => ?_⟩
  · simp [emit, listingBytes, Instr.bytes, Instr.ld, Instr.ldValue, Instr.plain, opDword,
      Width.bytes]
  · simp [listingBytes, Instr.bytes, Instr.ld, Instr.ldValue, Instr.plain, Width.bytes]
    omega
  · have hroom₀ : k ≤ finshStackMax := by omega
    have hroom₁ : k + 1 ≤ finshStackMax := by omega
    have hroom₂ : k + 1 + 1 ≤ finshStackMax := by omega
    have hroom₃ : k + 1 + 1 + 1 ≤ finshStackMax := by omega
    simp [depth, Instr.takes, Instr.gives, Instr.ld, Instr.ldValue, Instr.plain, hroom₀, hroom₁,
      hroom₂, hroom₃]

theorem listed_call (n : UInt8) : Listed (emit [VmOp.call.opcode, n]) false 2 (n.toNat + 1) 1 := by
  refine ⟨[⟨.call, [n], rfl⟩], rfl, rfl, fun k hk => ?_⟩
  have htakes : Instr.takes ⟨.call, [n], rfl⟩ = n.toNat + 1 := rfl
  have hgives : Instr.gives ⟨.call, [n], rfl⟩ = 1 := rfl
  rw [depth, depth, htakes, hgives]
  split
  · rw [if_pos (by omega)]
  · rw [if_neg (by omega)]

theorem listed_store (w : Width) :
    Listed (emit [(VmOp.st w).opcode, (VmOp.ldValueStack w).opcode]) false 2 1 0 := by
  refine ⟨[.plain (.st w) rfl, .plain (.ldValueStack w) rfl], rfl, rfl, fun k hk => ?_⟩
  rw [depth_cons (m := 1) (n := 0) rfl rfl, depth_cons (m := 0) (n := 0) rfl rfl, depth]
  split
  · rw [if_pos (by omega), if_pos (by omega)]
    rfl
  · rw [if_neg (by omega)]

theorem listed_null : Listed (emit (codeBytes 0 4)) false 4 0 0 := by
  refine ⟨replicate 4 (.plain .noOp rfl), rfl, rfl, fun k hk => ?_⟩
  have hroom : k ≤ finshStackMax := by omega
  simp [replicate, depth, Instr.takes, Instr.gives, Instr.plain, hroom]

theorem listed_op (d : FinshNode) (op : Width → VmOp) {n : ℕ} (h : ∀ w, (op w).operandSize = 0)
    (hn : ∀ w, (Instr.plain (op w) (h w)).takes = n) :
    Listed (emit (d.compileOp op)) false d.opSize (if d.opSize = 0 then 0 else n) 0 := by
  rw [FinshNode.compileOp, FinshNode.opSize]
  cases dataWidth d.dataType with
  | none => exact listed_nothing false
  | some w =>
    have hlisted := listed_plain (h w)
    rw [hn w] at hlisted
    exact hlisted

theorem listed_id (d : FinshNode) :
    Listed (emit d.compileId) false (if d.loaded = true then 5 else 0) 0
      (if d.loaded = true then 1 else 0) := by
  rw [FinshNode.compileId, FinshNode.loaded]
  cases d.symbol with
  | none => exact listed_nothing false
  | some s =>
    obtain ⟨idtype, type, address, asVar⟩ := s
    cases idtype with
    | syscall => exact listed_ld .dword address
    | var | sysvar =>
      simp only [any_some, reduceCtorEq, decide_false, Bool.false_or]
      cases type.loadWidth with
      | none => exact listed_nothing false
      | some w =>
        dsimp only [isSome_some, if_true]
        split
        · exact listed_ld .dword address
        · exact listed_ldValue w address

theorem listed_assign (child : FinshTree) :
    Listed (FinshNode.compileAssign child)
      ((FinshNode.assigned child).any fun t => (dataWidth t).isNone)
      (if FinshNode.stores child = true then 2 else 0)
      (if FinshNode.stores child = true then 1 else 0) 0 := by
  have hstore : ∀ t, Listed (FinshNode.compileStore t) (dataWidth t).isNone
      (if (dataWidth t).isSome = true then 2 else 0) (if (dataWidth t).isSome = true then 1 else 0)
      0 := by
    intro t
    rw [FinshNode.compileStore]
    cases dataWidth t with
    | none => exact listed_nothing true
    | some w => exact listed_store w
  cases child with
  | null => exact listed_nothing false
  | node c cc cs =>
    rw [FinshNode.compileAssign, FinshNode.stores, FinshNode.assigned]
    split
    · exact hstore c.dataType
    · split
      · exact hstore (c.dataType &&& 0x0F)
      · exact listed_nothing false

theorem listed_compilePre (d : FinshNode) (op : BinOp) (child : FinshTree) :
    Listed (emit (d.compilePre op child)) false
      (((d.stepped child).map fun w => 9 + w.bytes).getD 0) 0 0 := by
  cases child with
  | null => exact listed_nothing false
  | node c cc cs =>
    rw [FinshNode.compilePre, FinshNode.stepped]
    by_cases hid : c.nodeType = .id
    · rw [if_pos hid]
      cases c.symbol with
      | none =>
        rw [if_neg (by simp)]
        cases dataWidth d.dataType <;> exact listed_nothing false
      | some s =>
        rw [if_pos ⟨hid, rfl⟩]
        cases dataWidth d.dataType with
        | none => exact listed_nothing false
        | some w => exact listed_pre op w s.asVar
    · rw [if_neg hid, if_neg (fun h => hid h.1)]
      exact listed_nothing false

theorem listed_compilePost (d : FinshNode) (op : BinOp) (child : FinshTree) :
    Listed (emit (d.compilePost op child)) false
      (((d.stepped child).map fun w => 14 + w.bytes).getD 0) 0 0 := by
  cases child with
  | null => exact listed_nothing false
  | node c cc cs =>
    rw [FinshNode.compilePost, FinshNode.stepped]
    by_cases hid : c.nodeType = .id
    · rw [if_pos hid]
      cases c.symbol with
      | none =>
        rw [if_neg (by simp)]
        cases dataWidth d.dataType <;> exact listed_nothing false
      | some s =>
        rw [if_pos ⟨hid, rfl⟩]
        cases dataWidth d.dataType with
        | none => exact listed_nothing false
        | some w => exact listed_post op w s.asVar
    · rw [if_neg hid, if_neg (fun h => hid h.1)]
      exact listed_nothing false

theorem opSize_eq_ite (d : FinshNode) : (if d.opSize = 0 then 0 else 1) = d.opSize := by
  rw [FinshNode.opSize]
  split <;> rfl

theorem listed_self (d : FinshNode) (child : FinshTree) :
    Listed (d.compileSelf child) (d.fails child) (d.size child) (d.takes child)
      (d.gives child) := by
  have hbin : ∀ op : BinOp, Listed (emit (d.compileOp (.bin op))) false d.opSize d.opSize 0 := by
    intro op
    have h := listed_op d (.bin op) (n := 1) (fun _ => rfl) fun _ => rfl
    rw [opSize_eq_ite] at h
    exact h
  have hstack : ∀ op : Width → VmOp, (op = .bw ∨ op = .ldValueStack) →
      Listed (emit (d.compileOp op)) false d.opSize 0 0 := by
    rintro op (rfl | rfl)
    · simpa using listed_op d .bw (n := 0) (fun _ => rfl) fun _ => rfl
    · simpa using listed_op d .ldValueStack (n := 0) (fun _ => rfl) fun _ => rfl
  rw [FinshNode.compileSelf, FinshNode.fails, FinshNode.size, FinshNode.takes, FinshNode.gives]
  cases d.nodeType with
  | id => exact listed_id d
  | valueChar => exact listed_ld .byte d.value
  | valueInt | valueLong | valueString | valueNull => exact listed_ld .dword d.value
  | sysAdd => exact hbin .add
  | sysSub => exact hbin .sub
  | sysMul => exact hbin .mul
  | sysDiv => exact hbin .div
  | sysMod => exact hbin .mod
  | sysAnd => exact hbin .and
  | sysOr => exact hbin .or
  | sysXor => exact hbin .xor
  | sysShl => exact hbin .shl
  | sysShr => exact hbin .shr
  | sysBitwise => exact hstack .bw (.inl rfl)
  | sysFunc =>
    dsimp only [FinshNode.compileFunc]
    cases child with
    | null => exact listed_nothing false
    | node c cc cs => exact listed_call _
  | sysAssign => exact listed_assign child
  | sysPreinc => exact listed_compilePre d .add child
  | sysPredec => exact listed_compilePre d .sub child
  | sysInc => exact listed_compilePost d .add child
  | sysDec => exact listed_compilePost d .sub child
  | sysNull => exact listed_null
  | sysGetvalue =>
    dsimp only
    split
    · exact listed_nothing false
    · exact hstack .ldValueStack (.inr rfl)
  | sysGetaddr => exact listed_nothing false
  | sysCast => exact listed_nothing true

/-! ### Parts -/

/-- A part of the code: that of a node itself, or the `OP_pop` between two statements. -/
inductive CodePart
  | self (d : FinshNode) (child : FinshTree)
  | pop

namespace CodePart

/-- What is emitted for a part. -/
def emitted : CodePart → Emitted
  | .self d child => d.compileSelf child
  | .pop => emit [VmOp.pop.opcode]

/-- The number of bytes. -/
def size : CodePart → ℕ
  | .self d child => d.size child
  | .pop => 1

/-- The number of values that a part takes. -/
def takes : CodePart → ℕ
  | .self d child => d.takes child
  | .pop => 1

/-- The number of values that it gives then. -/
def gives : CodePart → ℕ
  | .self d child => d.gives child
  | .pop => 0

/-- Whether an error is reported. -/
def fails : CodePart → Bool
  | .self d child => d.fails child
  | .pop => false

/-- What the compiler does: it writes a byte, or reports an error, which is `none`. -/
def events (p : CodePart) : List (Option UInt8) :=
  p.emitted.code.map some ++ if p.emitted.error = true then [none] else []

theorem listed (p : CodePart) : Listed p.emitted p.fails p.size p.takes p.gives := by
  cases p with
  | self d child => exact listed_self d child
  | pop => exact @listed_plain .pop rfl

theorem gives_le (p : CodePart) : p.gives ≤ 1 := by
  cases p with
  | self d child =>
    rw [gives, FinshNode.gives]
    cases d.nodeType <;> dsimp only <;> first | exact Nat.zero_le 1 | exact le_rfl | (split <;> omega)
  | pop => exact Nat.zero_le 1

theorem error_eq (p : CodePart) : p.emitted.error = p.fails := by
  obtain ⟨is, h, -⟩ := p.listed
  rw [h]

theorem length_code (p : CodePart) : p.emitted.code.length = p.size := by
  obtain ⟨is, h, hlen, -⟩ := p.listed
  rw [h, hlen]

theorem size_of_fails {p : CodePart} (h : p.fails = true) : p.size = 0 := by
  cases p with
  | self d child =>
    rw [fails, FinshNode.fails] at h
    rw [size, FinshNode.size]
    cases hd : d.nodeType with
    | sysAssign =>
      rw [hd] at h
      have hstores : FinshNode.stores child = false := by
        rw [FinshNode.stores]
        cases hassigned : FinshNode.assigned child with
        | none => rfl
        | some t =>
          simp only [hassigned, any_some, isNone_iff_eq_none] at h
          rw [bind_some, h]
          rfl
      rw [hstores]
      rfl
    | sysCast => rfl
    | _ => simp [hd] at h
  | pop => cases h

end CodePart

/-- The nodes of a tree in the order in which their code is emitted. -/
def treeParts : FinshTree → List CodePart
  | .null => []
  | .node d child sibling => treeParts child ++ .self d child :: treeParts sibling

/-- The parts of a line. -/
def lineParts : FinshTree → List CodePart
  | .null => []
  | .node d child sibling =>
    treeParts child ++ .self d child ::
      ((if sibling ≠ .null then [CodePart.pop] else []) ++ lineParts sibling)

/-- The number of values behind some parts, if each finds what it takes. -/
def supply : List CodePart → ℕ → Option ℕ
  | [], k => some k
  | p :: ps, k => if p.takes ≤ k then supply ps (k - p.takes + p.gives) else none

/-- What is emitted for some parts. -/
def emitParts (ps : List CodePart) : Emitted :=
  ⟨ps.flatMap fun p => p.emitted.code, ps.any CodePart.fails⟩

theorem emitParts_append (ps qs : List CodePart) :
    emitParts (ps ++ qs) = emitParts ps ++ emitParts qs := by
  rw [emitParts, flatMap_append, any_append]
  rfl

theorem emitParts_cons (p : CodePart) (ps : List CodePart) :
    emitParts (p :: ps) = p.emitted ++ emitParts ps := by
  rw [emitParts, flatMap_cons, any_cons, ← p.error_eq]
  rfl

theorem emitted_append_assoc (a b c : Emitted) : a ++ b ++ c = a ++ (b ++ c) := by
  obtain ⟨a, ea⟩ := a
  obtain ⟨b, eb⟩ := b
  obtain ⟨c, ec⟩ := c
  exact congrArg₂ Emitted.mk (append_assoc a b c) (Bool.or_assoc ea eb ec)

theorem compile_eq_parts (t : FinshTree) : compile t = emitParts (treeParts t) := by
  induction t with
  | null => rfl
  | node d child sibling ihc ihs =>
    rw [compile, ihc, ihs, treeParts, emitParts_append, emitParts_cons, emitted_append_assoc]
    rfl

theorem compileStatements_eq_parts (t : FinshTree) :
    compileStatements t = emitParts (lineParts t) := by
  induction t with
  | null => rfl
  | node d child sibling ihc ihs =>
    have hpop : emit (if sibling ≠ .null then [VmOp.pop.opcode] else []) =
        emitParts (if sibling ≠ .null then [CodePart.pop] else []) := by
      split <;> rfl
    rw [compileStatements, compile_eq_parts, treeParts, treeParts, ihs, hpop, lineParts,
      emitParts_append, emitParts_append, emitParts_cons, emitParts_cons, emitParts_append]
    simp only [emitted_append_assoc]
    rfl

theorem supply_append (ps qs : List CodePart) (k : ℕ) :
    supply (ps ++ qs) k = (supply ps k).bind (supply qs) := by
  induction ps generalizing k with
  | nil => rfl
  | cons p ps ih =>
    rw [cons_append, supply, supply]
    split
    · exact ih _
    · rfl

/-- **The depth behind the code of some parts is the number of values**, as long as there is room
on the stack. -/
theorem exists_listing (ps : List CodePart) :
    ∃ is, (emitParts ps).code = listingBytes is ∧
      ∀ k, k + ps.length + 3 ≤ finshStackMax → depth is k = supply ps k := by
  induction ps with
  | nil => exact ⟨[], rfl, fun _ _ => rfl⟩
  | cons p ps ih =>
    obtain ⟨is, hbytes, hdepth⟩ := p.listed
    obtain ⟨is', hbytes', hdepth'⟩ := ih
    refine ⟨is ++ is', ?_, fun k hk => ?_⟩
    · rw [emitParts_cons, hbytes, listingBytes_append, ← hbytes']
      rfl
    · rw [length_cons] at hk
      have hgives := p.gives_le
      rw [depth_append, hdepth.2 k (by omega), supply]
      split
      · exact hdepth' _ (by omega)
      · rfl

end RtThread
