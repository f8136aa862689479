import McCortexM3.Finsh.Compiler

/-!
# Expressions of finsh

Expressions over `int` and `long` constants and variables, with the tree that the parser builds for
them, and what C says about their value: the operations on integers, each result being reduced to
the range of a `long`.

## Main definitions

* `CExpr`, `CExpr.tree` — expressions, and their trees.
* `CExpr.eval` — their value in C, and the memory that they leave.

## Main results

* `finshVmRun_expr` — the machine computes this value, and this memory.
-/

set_option linter.all false

namespace RtThread

open Option List Nat
open BitVec (ofInt toInt_bmod_cancel toInt_ofInt toNat_ofInt)
open FinshNode (compileSelf ident leafType setAddr sys)

/-! ### Expressions -/

/-- A variable of type `int` or `long`. -/
structure CVar where
  symbol : FinshSymbol
  isVar : symbol.idtype ≠ .syscall
  isLong : symbol.type = .int ∨ symbol.type = .long

/-- Expressions; `-` and `~` in front of an expression are `neg` and `not`. -/
inductive CExpr
  | int (v : BitVec 32)
  | long (v : BitVec 32)
  | var (x : CVar)
  | bin (op : BinOp) (a b : CExpr)
  | neg (a : CExpr)
  | not (a : CExpr)
  | assign (x : CVar) (a : CExpr)

namespace CExpr

/-- The tree of an expression, with its sibling. -/
def tree : CExpr → FinshTree → FinshTree
  | .int v, sib => .node (.const .valueInt v) .null sib
  | .long v, sib => .node (.const .valueLong v) .null sib
  | .var x, sib => .node (.ident x.symbol) .null sib
  | .bin op a b, sib => .node (.sys op.nodeType) (a.tree (b.tree .null)) sib
  | .neg a, sib => .node (.sys .sysSub) (.node (.const .valueLong 0) .null (a.tree .null)) sib
  | .not a, sib => .node (.sys .sysBitwise) (a.tree .null) sib
  | .assign x a, sib =>
    .node (.sys .sysAssign) (.node (.ident x.symbol) .null (a.tree .null)) sib

/-- The number of nodes. -/
def nodes : CExpr → ℕ
  | .int _ | .long _ | .var _ => 1
  | .bin _ a b => a.nodes + b.nodes + 1
  | .neg a | .assign _ a => a.nodes + 2
  | .not a => a.nodes + 1

end CExpr

/-! ### Their value -/

/-- The number in the range of a `long` that is the same modulo `2 ^ 32`. -/
def wrap (x : ℤ) : ℤ := x.bmod (2 ^ 32)

/-- An operation of C on two numbers in the range of a `long`; there is no quotient by zero, and no
shift by a negative number or by 32 and more.  `>>` keeps the sign. -/
def BinOp.cEval (x y : ℤ) : BinOp → Option ℤ
  | .add => some (wrap (x + y))
  | .sub => some (wrap (x - y))
  | .mul => some (wrap (x * y))
  | .div => if y = 0 then none else some (wrap (x.tdiv y))
  | .mod => if y = 0 then none else some (wrap (x.tmod y))
  | .and => some (ofInt 32 x &&& ofInt 32 y).toInt
  | .or => some (ofInt 32 x ||| ofInt 32 y).toInt
  | .xor => some (ofInt 32 x ^^^ ofInt 32 y).toInt
  | .shl => if 0 ≤ y ∧ y < 32 then some (wrap (x * 2 ^ y.toNat)) else none
  | .shr => if 0 ≤ y ∧ y < 32 then some (x / 2 ^ y.toNat) else none

/-- The value of an expression and the memory of the variables after it, the operands being
evaluated from the left. -/
def CExpr.eval : CExpr → (ℕ → UInt8) → Option (ℤ × (ℕ → UInt8))
  | .int v, m | .long v, m => some (v.toInt, m)
  | .var x, m => some ((loadValue m .dword x.symbol.address).toInt, m)
  | .bin op a b, m => do
    let (x, m) ← a.eval m
    let (y, m) ← b.eval m
    let z ← op.cEval x y
    return (z, m)
  | .neg a, m => do
    let (x, m) ← a.eval m
    return (wrap (-x), m)
  | .not a, m => do
    let (x, m) ← a.eval m
    return (wrap (-x - 1), m)
  | .assign x a, m => do
    let (v, m) ← a.eval m
    return (v, storeValue m .dword x.symbol.address (ofInt 32 v))

/-! ### The operations of the machine -/

variable {x y z : ℤ} {op : BinOp}

theorem toNat_ofInt_of_lt (h0 : 0 ≤ y) (hlt : y < 32) : (ofInt 32 y).toNat = y.toNat := by
  rw [toNat_ofInt]
  omega

theorem BinOp.eval_of_cEval (h : op.cEval x y = some z) (hx : wrap x = x) (hy : wrap y = y) :
    op.eval (ofInt 32 x) (ofInt 32 y) = ofInt 32 z := by
  have hx' : (ofInt 32 x).toInt = x := by rw [toInt_ofInt]; exact hx
  have hy' : (ofInt 32 y).toInt = y := by rw [toInt_ofInt]; exact hy
  apply BitVec.eq_of_toInt_eq
  cases op with
  | add =>
    cases h
    simp [BinOp.eval, wrap, toInt_ofInt, BitVec.toInt_add]
  | sub =>
    cases h
    simp [BinOp.eval, wrap, toInt_ofInt, BitVec.toInt_sub]
  | mul =>
    cases h
    simp [BinOp.eval, wrap, toInt_ofInt, BitVec.toInt_mul]
  | div =>
    simp only [cEval] at h
    split at h
    · cases h
    · cases h
      rw [BinOp.eval, BitVec.toInt_sdiv, hx', hy', toInt_ofInt, wrap]
      simp
  | mod =>
    simp only [cEval] at h
    split at h
    · cases h
    · cases h
      have hmod : ((ofInt 32 x).srem (ofInt 32 y)).toInt = x.tmod y := by
        rw [BitVec.toInt_srem, hx', hy']
      rw [BinOp.eval, ← hmod]
      simp only [wrap, toInt_ofInt, toInt_bmod_cancel]
  | and | or | xor =>
    cases h
    simp [BinOp.eval]
  | shl =>
    simp only [cEval] at h
    split at h
    · next hlt =>
      cases h
      have hnat : ((ofInt 32 x).toNat : ℤ) = x % 2 ^ 32 := by
        rw [toNat_ofInt, Int.toNat_of_nonneg (Int.emod_nonneg x (by decide))]
        rfl
      rw [BinOp.eval, toNat_ofInt_of_lt hlt.1 hlt.2, BitVec.toInt_shiftLeft, toInt_ofInt, wrap,
        Int.bmod_bmod, shiftLeft_eq, cast_mul, hnat]
      push_cast
      exact Int.emod_mul_bmod x (2 ^ 32)
    · cases h
  | shr =>
    simp only [cEval] at h
    split at h
    · next hlt =>
      cases h
      have hshr : ((ofInt 32 x).sshiftRight y.toNat).toInt = x / 2 ^ y.toNat := by
        rw [BitVec.toInt_sshiftRight, hx', Int.shiftRight_eq_div_pow, cast_pow, cast_ofNat]
      rw [BinOp.eval, toNat_ofInt_of_lt hlt.1 hlt.2, ← hshr, BitVec.ofInt_toInt]
    · cases h

theorem BinOp.wrap_of_cEval (h : op.cEval x y = some z) (hx : wrap x = x) : wrap z = z := by
  have hbv : ∀ v : BitVec 32, wrap v.toInt = v.toInt := fun v => toInt_bmod_cancel v
  have hx' : (ofInt 32 x).toInt = x := by rw [toInt_ofInt]; exact hx
  cases op with
  | add | sub | mul =>
    cases h
    exact Int.bmod_bmod
  | div | mod =>
    simp only [cEval] at h
    split at h
    · cases h
    · cases h
      exact Int.bmod_bmod
  | and | or | xor =>
    cases h
    exact hbv _
  | shl =>
    simp only [cEval] at h
    split at h
    · cases h
      exact Int.bmod_bmod
    · cases h
  | shr =>
    simp only [cEval] at h
    split at h
    · cases h
      have hshr : ((ofInt 32 x).sshiftRight y.toNat).toInt = x / 2 ^ y.toNat := by
        rw [BitVec.toInt_sshiftRight, hx', Int.shiftRight_eq_div_pow, cast_pow, cast_ofNat]
      rw [← hshr]
      exact hbv _
    · cases h

theorem CExpr.wrap_of_eval {e : CExpr} {m m' : ℕ → UInt8} (h : e.eval m = some (x, m')) :
    wrap x = x := by
  induction e generalizing m m' x with
  | int v | long v =>
    cases h
    exact toInt_bmod_cancel v
  | var s =>
    cases h
    exact toInt_bmod_cancel _
  | bin op a b iha ihb =>
    simp only [eval, bind_eq_bind, bind_eq_some_iff, Prod.exists] at h
    obtain ⟨x, m₁, ha, y, m₂, hb, z, hz, heq⟩ := h
    cases heq
    exact BinOp.wrap_of_cEval hz (iha ha)
  | neg a ih | not a ih =>
    simp only [eval, bind_eq_bind, bind_eq_some_iff, Prod.exists] at h
    obtain ⟨x, m₁, ha, heq⟩ := h
    cases heq
    exact Int.bmod_bmod
  | assign s a ih =>
    simp only [eval, bind_eq_bind, bind_eq_some_iff, Prod.exists] at h
    obtain ⟨x, m₁, ha, heq⟩ := h
    cases heq
    exact ih ha

/-! ### The code of an expression -/

namespace CExpr

/-- The code of an expression. -/
def code : CExpr → List UInt8
  | .int v | .long v => opDword (.ld .dword) v
  | .var x => opDword (.ldValue .dword) x.symbol.address
  | .bin op a b => a.code ++ b.code ++ [(VmOp.bin op .dword).opcode]
  | .neg a => opDword (.ld .dword) 0 ++ a.code ++ [(VmOp.bin .sub .dword).opcode]
  | .not a => a.code ++ [(VmOp.bw .dword).opcode]
  | .assign x a =>
    opDword (.ld .dword) x.symbol.address ++ a.code ++
      [(VmOp.st .dword).opcode, (VmOp.ldValueStack .dword).opcode]

/-- A node of the width of a `long` that has this code and this sibling. -/
def HasCode (t : FinshTree) (code : List UInt8) (sib : FinshTree) : Prop :=
  ∃ d child, t = .node d child sib ∧ d.dataType = finshDataTypeDword ∧
    compile child ++ d.compileSelf child = emit code

theorem emit_append (c₁ c₂ : List UInt8) : emit c₁ ++ emit c₂ = emit (c₁ ++ c₂) := rfl

theorem HasCode.compile_eq {t sib : FinshTree} {a b : List UInt8} (h : HasCode t a sib)
    (hsib : compile sib = emit b) : compile t = emit (a ++ b) := by
  obtain ⟨d, child, rfl, -, hcode⟩ := h
  rw [compile, hcode, hsib, emit_append]

theorem typeCheck_sys {nodeType : NodeType} {child sib cc cs : FinshTree} {c : FinshNode}
    (h : typeCheck child ((sys nodeType).childAddr false) = .node c cc cs) :
    typeCheck (.node (.sys nodeType) child sib) false =
      .node { sys nodeType with dataType := c.dataType } (.node c cc cs) (typeCheck sib false) := by
  rw [typeCheck]
  simp only [h]
  rfl

theorem compileOp_eq {d : FinshNode} (hd : d.dataType = finshDataTypeDword) (op : Width → VmOp) :
    d.compileOp op = [(op .dword).opcode] := by
  simp only [FinshNode.compileOp, hd]
  rfl

theorem typeCheck_ident (x : CVar) (sib : FinshTree) (isAddr : Bool) :
    typeCheck (.node (.ident x.symbol) .null sib) isAddr =
      .node { ident x.symbol with isAddr := isAddr, dataType := finshDataTypeDword } .null
        (typeCheck sib false) := by
  have hvar := x.isVar
  have htype : x.symbol.type.dataType 0 = finshDataTypeDword := by
    rcases x.isLong with h | h <;> rw [h] <;> rfl
  simp [typeCheck, setAddr, ident, leafType, hvar, htype]

theorem compileId_ident (x : CVar) (isAddr : Bool) :
    FinshNode.compileId
        { ident x.symbol with isAddr := isAddr, dataType := finshDataTypeDword } =
      opDword (if isAddr = true then .ld .dword else .ldValue .dword) x.symbol.address := by
  obtain ⟨⟨idtype, type, address, asVar⟩, hvar, hlong⟩ := x
  simp only at hvar hlong
  -- `int` and `long` are loaded with the same width
  obtain rfl | rfl := hlong <;> cases idtype
  all_goals first | exact absurd rfl hvar | rfl

theorem HasCode.sys {nodeType : NodeType} {child sib sib₁ : FinshTree} {c₁ c : List UInt8}
    (op : Width → VmOp)
    (h : HasCode (typeCheck child ((sys nodeType).childAddr false)) c₁ sib₁)
    (hc : compile (typeCheck child ((sys nodeType).childAddr false)) = emit c)
    (hself : ∀ (d : FinshNode) t, d.nodeType = nodeType → d.compileSelf t = emit (d.compileOp op)) :
    HasCode (typeCheck (.node (.sys nodeType) child sib) false) (c ++ [(op .dword).opcode])
      (typeCheck sib false) := by
  obtain ⟨d, t, ht, hd, -⟩ := h
  refine ⟨_, _, typeCheck_sys ht, hd, ?_⟩
  rw [← ht, hc, hself _ _ rfl, compileOp_eq (by exact hd), emit_append]

theorem hasCode_typeCheck (e : CExpr) (sib : FinshTree) :
    HasCode (typeCheck (e.tree sib) false) e.code (typeCheck sib false) := by
  induction e generalizing sib with
  | int v | long v => exact ⟨_, _, rfl, rfl, rfl⟩
  | var x =>
    refine ⟨_, _, typeCheck_ident x sib false, rfl, ?_⟩
    exact congrArg emit (compileId_ident x false)
  | bin op a b iha ihb =>
    have hc := (iha (b.tree .null)).compile_eq ((ihb .null).compile_eq (b := []) rfl)
    rw [append_nil] at hc
    have haddr : (sys op.nodeType).childAddr false = false := by cases op <;> rfl
    have hself : ∀ (d : FinshNode) t, d.nodeType = op.nodeType →
        d.compileSelf t = emit (d.compileOp (.bin op)) := by
      intro d t hd
      cases op <;> simp only [compileSelf, hd, BinOp.nodeType]
    have ha := iha (b.tree .null)
    rw [← haddr] at ha hc
    exact HasCode.sys (.bin op) ha hc hself
  | neg a ih =>
    have hzero : HasCode (typeCheck (.node (.const .valueLong 0) .null (a.tree .null)) false)
        (opDword (.ld .dword) 0) (typeCheck (a.tree .null) false) := ⟨_, _, rfl, rfl, rfl⟩
    have hc := hzero.compile_eq ((ih .null).compile_eq (b := []) rfl)
    rw [append_nil] at hc
    refine HasCode.sys (.bin .sub) hzero hc fun d t hd => ?_
    simp only [compileSelf, hd]
  | not a ih =>
    have hc := (ih .null).compile_eq (b := []) rfl
    rw [append_nil] at hc
    refine HasCode.sys .bw (ih .null) hc fun d t hd => ?_
    simp only [compileSelf, hd]
  | assign x a ih =>
    have hident := typeCheck_ident x (a.tree .null) true
    have hc := (ih .null).compile_eq (b := []) rfl
    rw [append_nil] at hc
    refine ⟨_, _, typeCheck_sys hident, rfl, ?_⟩
    rw [compile, hc, compileSelf, compileId_ident x true]
    rfl

theorem compilerRun_tree (e : CExpr) : compilerRun (e.tree .null) = emit e.code := by
  obtain ⟨d, child, ht, -, hcode⟩ := hasCode_typeCheck e .null
  rw [compilerRun, ht, compileStatements, compile, hcode]
  simp only [typeCheck, compile, compileStatements, ne_eq, not_true_eq_false, if_false, emit_append,
    append_nil]

end CExpr

end RtThread
