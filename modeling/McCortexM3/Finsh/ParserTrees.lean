import McCortexM3.Finsh.ParserState

/-!
# The trees of the finsh parser

A line has no more nodes than the table of the nodes, whatever is on it.  If there is no error on
it, every operator has its operands.

## Main definitions

* `FinshTree.count` — the number of nodes.
* `FinshTree.WellFormed` — every operator has its operands.

## Main results

* `count_of_finshParserRun`, `wellFormed_of_finshParserRun` — so it is for a line.
-/

set_option linter.all false

namespace RtThread

open Calls

/-! ### Trees -/

/-- Whether a node can have `n` children. -/
def FinshNode.HasArity (d : FinshNode) (n : ℕ) : Prop :=
  match d.nodeType with
  | .id | .valueChar | .valueInt | .valueLong | .valueString | .valueNull => n = 0
  | .sysAdd | .sysSub | .sysMul | .sysDiv | .sysMod | .sysAnd | .sysOr | .sysXor | .sysShl
  | .sysShr | .sysAssign => n = 2
  | .sysBitwise | .sysPreinc | .sysPredec | .sysInc | .sysDec | .sysGetvalue | .sysGetaddr => n = 1
  | .sysFunc => 1 ≤ n
  | .sysCast | .sysNull => False

namespace FinshTree

/-- The number of nodes. -/
def count : FinshTree → ℕ
  | null => 0
  | node _ child sibling => child.count + sibling.count + 1

/-- The number of nodes in a chain of siblings. -/
def length : FinshTree → ℕ
  | null => 0
  | node _ _ sibling => sibling.length + 1

/-- Every operator has its operands. -/
def WellFormed : FinshTree → Prop
  | null => True
  | node d child sibling => d.HasArity child.length ∧ child.WellFormed ∧ sibling.WellFormed

/-- A single expression. -/
def IsExpr (t : FinshTree) : Prop := t.WellFormed ∧ t.length = 1

variable {t t' : FinshTree} {pos n : ℕ} {nodeType : NodeType} {d : FinshNode}

theorem count_setSibling (t t' : FinshTree) : (t.setSibling t').count ≤ t.count + t'.count := by
  cases t with
  | null => exact Nat.zero_le _
  | node d child sibling =>
    simp only [setSibling, count]
    omega

theorem count_setSiblingAt (pos : ℕ) (t t' : FinshTree) :
    (t.setSiblingAt pos t').count ≤ t.count + t'.count := by
  induction t generalizing pos with
  | null => cases pos <;> exact Nat.zero_le _
  | node d child sibling _ ih =>
    cases pos with
    | zero =>
      simp only [setSiblingAt, count]
      omega
    | succ pos =>
      have h := ih pos
      simp only [setSiblingAt, count]
      omega

theorem count_append (t t' : FinshTree) : (t.append t').count = t.count + t'.count := by
  induction t with
  | null => exact (Nat.zero_add _).symm
  | node d child sibling _ ih =>
    simp only [append, count, ih]
    omega

@[simp] theorem count_setDataType (t : FinshTree) (n : ℕ) : (t.setDataType n).count = t.count := by
  cases t <;> rfl

theorem WellFormed.append (h : t.WellFormed) (h' : t'.WellFormed) : (t.append t').WellFormed := by
  induction t with
  | null => exact h'
  | node d child sibling _ ih => exact ⟨h.1, h.2.1, ih h.2.2⟩

theorem WellFormed.setSiblingAt (h : t.WellFormed) (h' : t'.WellFormed) (pos : ℕ) :
    (t.setSiblingAt pos t').WellFormed := by
  induction t generalizing pos with
  | null => cases pos <;> trivial
  | node d child sibling _ ih =>
    cases pos with
    | zero => exact ⟨h.1, h.2.1, h'⟩
    | succ pos => exact ⟨h.1, h.2.1, ih h.2.2 pos⟩

theorem IsExpr.ne_null (h : t.IsExpr) : t ≠ .null := by
  rintro rfl
  exact absurd h.2 (by decide)

theorem IsExpr.setDataType (h : t.IsExpr) (n : ℕ) : (t.setDataType n).IsExpr := by
  cases t with
  | null => exact h
  | node d child sibling => exact ⟨⟨h.1.1, h.1.2⟩, h.2⟩

theorem isExpr_sys (h : t.IsExpr) (h' : t'.WellFormed)
    (harity : (FinshNode.sys nodeType).HasArity (t'.length + 1)) :
    (FinshTree.sys nodeType t t').IsExpr := by
  cases t with
  | null => exact absurd rfl h.ne_null
  | node d child sibling => exact ⟨⟨harity, ⟨h.1.1, h.1.2.1, h'⟩, trivial⟩, rfl⟩

theorem isExpr_leaf (h : d.HasArity 0) : (FinshTree.node d .null .null).IsExpr :=
  ⟨⟨h, trivial, trivial⟩, rfl⟩

end FinshTree

/-! ### The table of the nodes -/

namespace FinshParser

variable {p : FinshParser} {t t' : FinshTree} {nodeType : NodeType} {d : FinshNode}

theorem nodes_nextToken (p : FinshParser) : p.nextToken.1.nodes = p.nodes := by
  rw [nextToken]
  split
  · rfl
  · split <;> rfl

theorem nodes_checkToken (p : FinshParser) (token : FinshToken) (f : FinshToken → Bool) :
    (p.checkToken token f).nodes = p.nodes := by
  rw [checkToken]
  split <;> rfl

theorem nodes_matchToken (p : FinshParser) (f : FinshToken → Bool) :
    (p.matchToken f).1.nodes = p.nodes :=
  (nodes_checkToken _ _ f).trans (nodes_nextToken p)

theorem nodes_varInsert (p : FinshParser) (name : List UInt8) (type : FinshType) :
    (p.varInsert name type).nodes = p.nodes := by
  rw [varInsert]
  split
  · rfl
  · split <;> rfl

theorem nodes_typePointer (p : FinshParser) (type : FinshType) :
    (p.typePointer type).1.nodes = p.nodes := by
  simp only [typePointer]
  split <;> exact nodes_nextToken p

theorem nodes_procType (p : FinshParser) : p.procType.1.nodes = p.nodes := by
  have hnext := nodes_nextToken p
  simp only [procType]
  split
  · exact (nodes_typePointer _ _).trans hnext
  · split
    · split
      · split
        · exact (nodes_typePointer _ _).trans ((nodes_nextToken _).trans hnext)
        · exact (nodes_nextToken _).trans hnext
      · exact (nodes_typePointer _ _).trans ((nodes_nextToken _).trans hnext)
    · exact hnext

theorem nodes_procIdentifier (p : FinshParser) : p.procIdentifier.1.nodes = p.nodes := by
  simp only [procIdentifier]
  split <;> exact nodes_matchToken p _

/-- From `p`, with `n` nodes in trees, to `r`: the nodes of the tree are those, or have been
allocated, and no more have been allocated than there are places. -/
def Spends (p : FinshParser) (n : ℕ) (r : FinshParser × FinshTree) : Prop :=
  r.2.count + p.nodes ≤ n + r.1.nodes ∧ r.1.nodes ≤ max p.nodes finshNodeMax

theorem spends_allocate (p : FinshParser) (d : FinshNode) : Spends p 0 (p.allocate d) := by
  rw [allocate]
  split
  · next h => exact ⟨by simp only [FinshTree.count]; omega, by simp only; omega⟩
  · exact ⟨le_rfl, Nat.le_max_left _ _⟩

theorem spends_newNode (p : FinshParser) (d : FinshNode) : Spends p 0 (p.newNode d) := by
  have h := spends_allocate p d
  simp only [newNode]
  split
  · next hnull =>
    rw [Spends, hnull] at h
    exact h
  · exact h

theorem spends_newId (e : FinshNames) (p : FinshParser) (name : List UInt8) :
    Spends p 0 (p.newId e name) := by
  rw [newId]
  split
  · exact spends_newNode p _
  · exact ⟨le_rfl, Nat.le_max_left _ _⟩

theorem spends_makeSysNode (p : FinshParser) (nodeType : NodeType) (t t' : FinshTree) :
    Spends p (t.count + t'.count) (p.makeSysNode nodeType t t') := by
  have hcount := FinshTree.count_setSibling t t'
  by_cases hlt : p.nodes < finshNodeMax
  · cases t with
    | null =>
      simp only [Spends, makeSysNode, allocate, if_pos hlt, setError, FinshTree.count]
      omega
    | node d child sibling =>
      simp only [Spends, makeSysNode, allocate, if_pos hlt, FinshTree.count] at hcount ⊢
      omega
  · simp only [Spends, makeSysNode, allocate, if_neg hlt, setError, FinshTree.count]
    omega

/-- The nodes of the trees that a function has built so far. -/
def held : Proc → ℕ
  | .binaryLoop _ node | .postfixLoop node | .paramLoop node | .declLoop _ _ node => node.count
  | .run _ root _ => root.count
  | _ => 0

/-- Every function allocates the nodes of the tree that it returns, but for those that it is given. -/
theorem meets_spends (e : FinshNames) (q : Proc × FinshParser) :
    (procBody e q).Meets (fun q r => True ∧ Spends q.2 (held q.1) r)
      fun r => Spends q.2 (held q.1) r := by
  obtain ⟨q, p⟩ := q
  have hnext := nodes_nextToken p
  simp only [Spends, true_and]
  cases q with
  | assignExpr =>
    rintro ⟨p₁, or⟩ h₁
    have hnext₁ := nodes_nextToken p₁
    simp only [done, held] at h₁ ⊢
    split
    · rintro ⟨p₃, assign⟩ h₃
      have hmake := spends_makeSysNode p₃ .sysAssign or assign
      simp only [Meets, Spends] at h₃ hmake ⊢
      omega
    · simp only [Meets, replayToken]
      omega
  | binary l =>
    rintro ⟨p₁, node⟩ h₁ ⟨p₂, node'⟩ h₂
    have hoperand : held l.operand = 0 := by cases l <;> rfl
    simp only [hoperand] at h₁
    simp only [done, Meets, held] at h₂ ⊢
    omega
  | binaryLoop l node =>
    have hoperand : held l.operand = 0 := by cases l <;> rfl
    simp only [procBody, procBinaryLoop]
    split
    · rintro ⟨p₁, node'⟩ h₁
      simp only [hoperand] at h₁
      dsimp only
      split
      · rintro ⟨p₂, t⟩ h₂
        simp only [done, Meets, held, setError] at h₂ ⊢
        omega
      · next op _ _ =>
        rintro ⟨p₂, t⟩ h₂
        have hmake := spends_makeSysNode p₁ op.nodeType node node'
        simp only [done, Meets, held, Spends] at h₂ hmake ⊢
        omega
    · simp only [done, Meets, replayToken, held]
      omega
  | castExpr =>
    simp only [procBody, procCastExpr]
    split
    · rintro ⟨p₁, cast⟩ h₁
      have htype := nodes_procType p.nextToken.1
      have hmatch := nodes_matchToken p.nextToken.1.procType.1 (· = .rightParen)
      simp only [done, held] at h₁ ⊢
      split
      · simp only [Meets, FinshTree.count_setDataType]
        omega
      · rintro ⟨p₃, t⟩ h₃
        simp only [done, Meets, replayToken] at h₃ ⊢
        omega
    · rintro ⟨p₁, t⟩ h₁
      simp only [done, Meets, held, replayToken] at h₁ ⊢
      omega
  | unaryExpr =>
    simp only [procBody, procUnaryExpr]
    split
    · rintro ⟨p₁, t⟩ h₁
      simp only [done, Meets, held] at h₁ ⊢
      omega
    · split
      · rintro ⟨p₁, t⟩ h₁
        have hzero := spends_newNode p₁ (.const .valueLong 0)
        have hmake := spends_makeSysNode (p₁.newNode (.const .valueLong 0)).1 .sysSub
          (p₁.newNode (.const .valueLong 0)).2 t
        simp only [done, Meets, held, Spends] at h₁ hzero hmake ⊢
        omega
      · split
        · next nodeType _ =>
          rintro ⟨p₁, t⟩ h₁
          have hmake := spends_makeSysNode p₁ nodeType t .null
          simp only [done, Meets, held, Spends, FinshTree.count] at h₁ hmake ⊢
          omega
        · rintro ⟨p₁, t⟩ h₁
          simp only [done, Meets, held, replayToken] at h₁ ⊢
          omega
  | postfixExpr =>
    rintro ⟨p₁, node⟩ h₁ ⟨p₂, t⟩ h₂
    simp only [done, Meets, held] at h₁ h₂ ⊢
    omega
  | postfixLoop node =>
    simp only [procBody, procPostfixLoop]
    split
    · rintro ⟨p₁, t⟩ h₁
      have hmake := spends_makeSysNode p.nextToken.1 .sysInc node .null
      simp only [done, Meets, held, Spends, FinshTree.count] at h₁ hmake ⊢
      omega
    · split
      · rintro ⟨p₁, t⟩ h₁
        have hmake := spends_makeSysNode p.nextToken.1 .sysDec node .null
        simp only [done, Meets, held, Spends, FinshTree.count] at h₁ hmake ⊢
        omega
      · split
        · have hnext₁ := nodes_nextToken p.nextToken.1
          split
          · rintro ⟨p₁, params⟩ h₁ ⟨p₂, t⟩ h₂
            have hmatch := nodes_matchToken p₁ (· = .rightParen)
            have hmake := spends_makeSysNode (p₁.matchToken (· = .rightParen)).1 .sysFunc node params
            simp only [done, Meets, held, Spends, replayToken] at h₁ h₂ hmake ⊢
            omega
          · rintro ⟨p₁, t⟩ h₁
            have hmake := spends_makeSysNode p.nextToken.1.nextToken.1 .sysFunc node .null
            simp only [done, Meets, held, Spends, FinshTree.count] at h₁ hmake ⊢
            omega
        · simp only [done, Meets, replayToken, held]
          omega
  | primaryExpr =>
    change Meets _ _ (p.procPrimaryExpr e)
    rw [procPrimaryExpr]
    generalize p.nextToken = next at hnext
    obtain ⟨p₁, token⟩ := next
    simp only at hnext
    have hconst (d : FinshNode) : Spends p 0 (p₁.newNode d) := by
      have hnew := spends_newNode p₁ d
      simp only [Spends] at hnew ⊢
      omega
    have hinvalid : Spends p 0 (p₁.setError .invalidToken, .null) := by
      simp only [Spends, setError, FinshTree.count]
      omega
    cases token
    case identifier name =>
      have hid := nodes_procIdentifier p₁.replayToken
      have hnew := spends_newId e p₁.replayToken.procIdentifier.1 p₁.replayToken.procIdentifier.2
      simp only [done, Meets, held, Spends, replayToken] at hid hnew ⊢
      omega
    case leftParen =>
      rintro ⟨p₂, t⟩ h₂
      have hmatch := nodes_matchToken p₂ (· = .rightParen)
      simp only [done, Meets, held] at h₂ ⊢
      omega
    all_goals first | exact hinvalid | exact hconst _
  | paramList =>
    rintro ⟨p₁, assign⟩ h₁
    simp only [done, held] at h₁ ⊢
    split
    · simp only [Meets, FinshTree.count]
      omega
    · rintro ⟨p₂, t⟩ h₂
      simp only [done, Meets] at h₂ ⊢
      omega
  | paramLoop node =>
    simp only [procBody, procParamLoop]
    split
    · rintro ⟨p₁, assign⟩ h₁
      have hif : (if assign = .null then p₁.setError .expectOperator else p₁).nodes = p₁.nodes := by
        split <;> rfl
      rintro ⟨p₂, t⟩ h₂
      simp only [done, Meets, held, FinshTree.count_append] at h₁ h₂ ⊢
      omega
    · simp only [done, Meets, replayToken, held]
      omega
  | exprStatement =>
    simp only [procBody, procExprStatement]
    split
    · rintro ⟨p₁, t⟩ h₁
      have hmatch := nodes_matchToken p₁ (· = .semicolon)
      simp only [done, Meets, held, replayToken] at h₁ ⊢
      omega
    · simp only [done, Meets, held, FinshTree.count]
      omega
  | variableDecl =>
    have htype := nodes_procType p
    have hid := nodes_procIdentifier p.procType.1
    have hvar := nodes_varInsert p.procType.1.procIdentifier.1 p.procType.1.procIdentifier.2
      p.procType.2
    have hnext₁ := nodes_nextToken (p.procType.1.procIdentifier.1.varInsert
      p.procType.1.procIdentifier.2 p.procType.2)
    simp only [procBody, procVariableDecl]
    split
    · rintro ⟨p₁, t⟩ h₁
      simp only [done, Meets, held, FinshTree.count] at h₁ ⊢
      omega
    · split
      · rintro ⟨p₁, assign⟩ h₁
        simp only [held] at h₁ ⊢
        split
        · rintro ⟨p₂, t⟩ h₂
          have hnew := spends_newId e p₁ p.procType.1.procIdentifier.2
          have hmake := spends_makeSysNode (p₁.newId e p.procType.1.procIdentifier.2).1 .sysAssign
            (p₁.newId e p.procType.1.procIdentifier.2).2 assign
          have hlast := nodes_nextToken ((p₁.newId e p.procType.1.procIdentifier.2).1.makeSysNode
            .sysAssign (p₁.newId e p.procType.1.procIdentifier.2).2 assign).1
          simp only [done, Meets, Spends] at h₂ hnew hmake ⊢
          omega
        · rintro ⟨p₂, t⟩ h₂
          simp only [done, Meets, FinshTree.count] at h₂ ⊢
          omega
      · split
        · simp only [done, Meets, held, FinshTree.count]
          omega
        · simp only [done, Meets, held, setError, FinshTree.count]
          omega
  | declLoop type token node =>
    have hid := nodes_procIdentifier p
    have hvar := nodes_varInsert p.procIdentifier.1 p.procIdentifier.2 type
    have hnext₁ := nodes_nextToken (p.procIdentifier.1.varInsert p.procIdentifier.2 type)
    have hcheck := nodes_checkToken p token (· = .semicolon)
    simp only [procBody, procDeclLoop]
    split
    · split
      · rintro ⟨p₁, assign⟩ h₁
        simp only [held] at h₁ ⊢
        split
        · rintro ⟨p₂, t⟩ h₂
          have hnew := spends_newId e p₁ p.procIdentifier.2
          have hmake := spends_makeSysNode (p₁.newId e p.procIdentifier.2).1 .sysAssign
            (p₁.newId e p.procIdentifier.2).2 assign
          have hlast := nodes_nextToken ((p₁.newId e p.procIdentifier.2).1.makeSysNode
            .sysAssign (p₁.newId e p.procIdentifier.2).2 assign).1
          simp only [done, Meets, Spends, FinshTree.count_append] at h₂ hnew hmake ⊢
          omega
        · rintro ⟨p₂, t⟩ h₂
          simp only [done, Meets] at h₂ ⊢
          omega
      · rintro ⟨p₁, t⟩ h₁
        simp only [done, Meets, held] at h₁ ⊢
        omega
    · simp only [done, Meets, held]
      omega
  | run token root pos =>
    have hcallee : ∀ b : Bool, held (if b = true then .variableDecl else .exprStatement) = 0 := by
      intro b
      cases b <;> rfl
    simp only [procBody, procRun]
    split
    · simp only [done, Meets, held]
      omega
    · rintro ⟨p₁, node⟩ h₁
      have hnext₁ := nodes_nextToken p₁
      simp only [hcallee, replayToken] at h₁
      simp only [held]
      split
      · split
        · simp only [done, Meets, FinshTree.count]
          omega
        · rintro ⟨p₂, t⟩ h₂
          simp only [done, Meets] at h₂ ⊢
          omega
      · rintro ⟨p₂, t⟩ h₂
        have hcount := FinshTree.count_setSiblingAt pos root node
        have hif : ∀ b : Prop, ∀ _ : Decidable b,
            (if b then p₁.nextToken.1 else p₁).nextToken.1.nodes = p₁.nodes := by
          intro b _
          rw [nodes_nextToken]
          split
          · exact hnext₁
          · rfl
        simp only [done, Meets, hif] at h₂ ⊢
        omega

/-! ### Operators and operands -/

theorem makeSysNode_eq (h : (p.makeSysNode nodeType t t').1.errno = none) :
    (p.makeSysNode nodeType t t').2 = .sys nodeType t t' := by
  by_cases hlt : p.nodes < finshNodeMax
  · simp only [makeSysNode, allocate, if_pos hlt] at h ⊢
    cases t with
    | null => exact absurd h (errno_setError _ _)
    | node d child sibling => rfl
  · simp only [makeSysNode, allocate, if_neg hlt] at h
    exact absurd h (errno_setError _ _)

theorem isExpr_makeSysNode (h : (p.makeSysNode nodeType t t').1.errno = none) (ht : t.IsExpr)
    (ht' : t'.WellFormed) (harity : (FinshNode.sys nodeType).HasArity (t'.length + 1)) :
    (p.makeSysNode nodeType t t').2.IsExpr := by
  rw [makeSysNode_eq h]
  exact FinshTree.isExpr_sys ht ht' harity

theorem isExpr_newNode (h : (p.newNode d).1.errno = none) (hd : d.HasArity 0) :
    (p.newNode d).2.IsExpr := by
  by_cases hlt : p.nodes < finshNodeMax
  · simp only [newNode, allocate, if_pos hlt, reduceCtorEq, if_false]
    exact FinshTree.isExpr_leaf hd
  · simp only [newNode, allocate, if_neg hlt, if_true] at h
    exact absurd h (errno_setError _ _)

theorem isExpr_newId {e : FinshNames} {name : List UInt8}
    (h : (p.newId e name).1.errno = none) : (p.newId e name).2.IsExpr := by
  rw [newId] at h ⊢
  split at h
  · exact isExpr_newNode h rfl
  · exact absurd h (errno_setError _ _)

/-- What a function expects of the trees that it is given. -/
def Given : Proc → Prop
  | .binaryLoop _ node | .postfixLoop node => node.IsExpr
  | .paramLoop node | .declLoop _ _ node | .run _ node _ => node.WellFormed
  | _ => True

/-- What it returns, if there is no error. -/
def Builds : Proc → FinshTree → Prop
  | .paramList, t | .paramLoop _, t | .exprStatement, t | .variableDecl, t | .declLoop .., t
  | .run .., t => t.WellFormed
  | _, t => t.IsExpr

/-- A result without an error is the tree that the function builds. -/
def BuildsTree (q : Proc × FinshParser) (r : FinshParser × FinshTree) : Prop :=
  r.1.errno = none → Given q.1 → Builds q.1 r.2

/-- There is no error behind a call only if there is none in front of it. -/
def NoError (q : Proc × FinshParser) (r : FinshParser × FinshTree) : Prop :=
  r.1.errno = none → q.2.errno = none

theorem meets_buildsTree (e : FinshNames) (q : Proc × FinshParser) :
    (procBody e q).Meets (fun q r => NoError q r ∧ BuildsTree q r) (BuildsTree q) := by
  obtain ⟨q, p⟩ := q
  cases q with
  | assignExpr =>
    rintro ⟨p₁, or⟩ ⟨-, hor⟩
    dsimp only
    split
    · rintro ⟨p₃, assign⟩ ⟨hno₃, hassign⟩ herrno -
      have h₃ : p₃.errno = none := not_imp_not.mp errno_makeSysNode herrno
      have h₁ : p₁.errno = none := not_imp_not.mp errno_nextToken (hno₃ h₃)
      have hexpr := hassign h₃ trivial
      exact isExpr_makeSysNode herrno (hor h₁ trivial) hexpr.1 (congrArg (· + 1) hexpr.2)
    · intro herrno _
      exact hor (not_imp_not.mp errno_nextToken herrno) trivial
  | binary l =>
    rintro ⟨p₁, node⟩ ⟨-, hnode⟩ ⟨p₂, node'⟩ ⟨hno₂, hloop⟩ herrno -
    have hoperand : Builds l.operand node := hnode (hno₂ herrno) (by cases l <;> trivial)
    exact hloop herrno (by cases l <;> exact hoperand)
  | binaryLoop l node =>
    simp only [procBody, procBinaryLoop]
    split
    · next op hop =>
      rintro ⟨p₁, node'⟩ ⟨-, hnode'⟩
      dsimp only
      split
      · rintro ⟨p₂, t⟩ ⟨hno₂, -⟩ herrno
        exact absurd (hno₂ herrno) (errno_setError _ _)
      · rintro ⟨p₂, t⟩ ⟨hno₂, hloop⟩ herrno hgiven
        have hmake := hno₂ herrno
        have h₁ : p₁.errno = none := not_imp_not.mp errno_makeSysNode hmake
        have hexpr : node'.IsExpr := by
          have h := hnode' h₁ (by cases l <;> trivial)
          cases l <;> exact h
        refine hloop herrno (isExpr_makeSysNode hmake hgiven hexpr.1 ?_)
        rw [hexpr.2]
        cases op <;> rfl
    · exact fun _ hgiven => hgiven
  | castExpr =>
    simp only [procBody, procCastExpr]
    split
    · rintro ⟨p₁, cast⟩ ⟨-, hcast⟩
      dsimp only
      split
      · exact fun herrno _ => (hcast herrno trivial).setDataType _
      · rintro ⟨p₃, t⟩ ⟨-, ht⟩ herrno -
        exact ht herrno trivial
    · rintro ⟨p₁, t⟩ ⟨-, ht⟩ herrno -
      exact ht herrno trivial
  | unaryExpr =>
    simp only [procBody, procUnaryExpr]
    split
    · rintro ⟨p₁, t⟩ ⟨-, ht⟩ herrno -
      exact ht herrno trivial
    · split
      · rintro ⟨p₁, t⟩ ⟨-, ht⟩ herrno -
        have hzero := not_imp_not.mp errno_makeSysNode herrno
        have h₁ : p₁.errno = none := not_imp_not.mp errno_newNode hzero
        have hexpr : t.IsExpr := ht h₁ trivial
        exact isExpr_makeSysNode herrno (isExpr_newNode hzero rfl) hexpr.1
          (congrArg (· + 1) hexpr.2)
      · split
        · next nodeType hunary =>
          rintro ⟨p₁, t⟩ ⟨-, ht⟩ herrno -
          have h₁ : p₁.errno = none := not_imp_not.mp errno_makeSysNode herrno
          refine isExpr_makeSysNode herrno (ht h₁ trivial) trivial ?_
          generalize p.nextToken.2 = token at hunary
          cases token <;> cases hunary <;> rfl
        · rintro ⟨p₁, t⟩ ⟨-, ht⟩ herrno -
          exact ht herrno trivial
  | postfixExpr =>
    rintro ⟨p₁, node⟩ ⟨-, hnode⟩ ⟨p₂, t⟩ ⟨hno₂, hloop⟩ herrno -
    exact hloop herrno (hnode (hno₂ herrno) trivial)
  | postfixLoop node =>
    simp only [procBody, procPostfixLoop]
    split
    · rintro ⟨p₁, t⟩ ⟨hno₁, hloop⟩ herrno hgiven
      exact hloop herrno (isExpr_makeSysNode (hno₁ herrno) hgiven trivial rfl)
    · split
      · rintro ⟨p₁, t⟩ ⟨hno₁, hloop⟩ herrno hgiven
        exact hloop herrno (isExpr_makeSysNode (hno₁ herrno) hgiven trivial rfl)
      · split
        · split
          · rintro ⟨p₁, params⟩ ⟨-, hparams⟩ ⟨p₂, t⟩ ⟨hno₂, hloop⟩ herrno hgiven
            have hmake := hno₂ herrno
            have h₁ : p₁.errno = none :=
              not_imp_not.mp errno_matchToken (not_imp_not.mp errno_makeSysNode hmake)
            exact hloop herrno (isExpr_makeSysNode hmake hgiven (hparams h₁ trivial)
              (Nat.succ_le_succ (Nat.zero_le _)))
          · rintro ⟨p₁, t⟩ ⟨hno₁, hloop⟩ herrno hgiven
            exact hloop herrno (isExpr_makeSysNode (hno₁ herrno) hgiven trivial le_rfl)
        · exact fun _ hgiven => hgiven
  | primaryExpr =>
    change Meets _ _ (p.procPrimaryExpr e)
    rw [procPrimaryExpr]
    generalize p.nextToken = next
    obtain ⟨p₁, token⟩ := next
    cases token
    case identifier => exact fun herrno _ => isExpr_newId herrno
    case leftParen =>
      rintro ⟨p₂, t⟩ ⟨-, ht⟩ herrno -
      exact ht (not_imp_not.mp errno_matchToken herrno) trivial
    case valueChar | valueInt | valueLong | valueString | valueNull =>
      exact fun herrno _ => isExpr_newNode herrno rfl
    all_goals exact fun herrno => absurd herrno (errno_setError _ _)
  | paramList =>
    rintro ⟨p₁, assign⟩ ⟨-, hassign⟩
    dsimp only
    split
    · exact fun _ _ => trivial
    · rintro ⟨p₂, t⟩ ⟨hno₂, hloop⟩ herrno -
      exact hloop herrno (hassign (hno₂ herrno) trivial).1
  | paramLoop node =>
    simp only [procBody, procParamLoop]
    split
    · rintro ⟨p₁, assign⟩ ⟨-, hassign⟩ ⟨p₂, t⟩ ⟨hno₂, hloop⟩ herrno hgiven
      have h₁ : p₁.errno = none := by
        have h := hno₂ herrno
        dsimp only at h
        split at h
        · exact absurd h (errno_setError _ _)
        · exact h
      exact hloop herrno (hgiven.append (hassign h₁ trivial).1)
    · exact fun _ hgiven => hgiven
  | exprStatement =>
    simp only [procBody, procExprStatement]
    split
    · rintro ⟨p₁, t⟩ ⟨-, ht⟩ herrno -
      exact (ht (not_imp_not.mp errno_matchToken herrno) trivial).1
    · exact fun _ _ => trivial
  | variableDecl =>
    simp only [procBody, procVariableDecl]
    split
    · rintro ⟨p₁, t⟩ ⟨-, hloop⟩ herrno -
      exact hloop herrno trivial
    · split
      · rintro ⟨p₁, assign⟩ ⟨-, hassign⟩
        dsimp only
        split
        · rintro ⟨p₂, t⟩ ⟨hno₂, hloop⟩ herrno -
          have hmake := not_imp_not.mp errno_nextToken (hno₂ herrno)
          have hid := not_imp_not.mp errno_makeSysNode hmake
          have hexpr := hassign (not_imp_not.mp errno_newId hid) trivial
          exact hloop herrno (isExpr_makeSysNode hmake (isExpr_newId hid) hexpr.1
            (congrArg (· + 1) hexpr.2)).1
        · rintro ⟨p₂, t⟩ ⟨-, hloop⟩ herrno -
          exact hloop herrno trivial
      · split
        · exact fun _ _ => trivial
        · exact fun _ _ => trivial
  | declLoop type token node =>
    simp only [procBody, procDeclLoop]
    split
    · split
      · rintro ⟨p₁, assign⟩ ⟨-, hassign⟩
        dsimp only
        split
        · rintro ⟨p₂, t⟩ ⟨hno₂, hloop⟩ herrno hgiven
          have hmake := not_imp_not.mp errno_nextToken (hno₂ herrno)
          have hid := not_imp_not.mp errno_makeSysNode hmake
          have hexpr := hassign (not_imp_not.mp errno_newId hid) trivial
          exact hloop herrno (hgiven.append (isExpr_makeSysNode hmake (isExpr_newId hid) hexpr.1
            (congrArg (· + 1) hexpr.2)).1)
        · rintro ⟨p₂, t⟩ ⟨-, hloop⟩ herrno hgiven
          exact hloop herrno hgiven
      · rintro ⟨p₁, t⟩ ⟨-, hloop⟩ herrno hgiven
        exact hloop herrno hgiven
    · exact fun _ hgiven => hgiven
  | run token root pos =>
    have hcallee : ∀ (b : Bool) (t : FinshTree) (p : FinshParser) (r : FinshParser × FinshTree),
        BuildsTree (if b = true then .variableDecl else .exprStatement, p) r →
        r.1.errno = none → r.2.WellFormed := by
      intro b t p r h herrno
      cases b <;> exact h herrno trivial
    simp only [procBody, procRun]
    split
    · exact fun _ hgiven => hgiven
    · rintro ⟨p₁, node⟩ ⟨-, hnode⟩
      dsimp only
      split
      · split
        · exact fun _ _ => trivial
        · rintro ⟨p₂, t⟩ ⟨hno₂, hloop⟩ herrno -
          exact hloop herrno (hcallee _ .null _ _ hnode (not_imp_not.mp errno_nextToken (hno₂ herrno)))
      · rintro ⟨p₂, t⟩ ⟨hno₂, hloop⟩ herrno hgiven
        have h₁ : p₁.errno = none := by
          have h := not_imp_not.mp errno_nextToken (hno₂ herrno)
          split at h
          · exact not_imp_not.mp errno_nextToken h
          · exact h
        exact hloop herrno (hgiven.setSiblingAt (hcallee _ .null _ _ hnode h₁) pos)

end FinshParser

/-! ### Lines -/

open FinshParser

variable {e : FinshNames} {vars : List (List UInt8 × FinshType)} {line : List Lexeme} {n : ℕ}
  {p : FinshParser} {root : FinshTree}

section

variable (h : finshParserRun e vars line n = some (p, root))
include h

theorem result_of_finshParserRun :
    returns e (.run (start vars line).nextToken.2 .null 0) (start vars line).nextToken.1 =
      some (p, root) :=
  result_eq_some_iff.mpr ⟨n, h⟩

/-- **A line has no more nodes than there are places for.** -/
theorem count_of_finshParserRun : root.count ≤ finshNodeMax := by
  have hspends := result_induct_of (K := fun _ _ => True) (fun _ _ _ => trivial)
    (meets_spends e) (result_of_finshParserRun h)
  have hstart := nodes_nextToken (start vars line)
  have hzero : (start vars line).nodes = 0 := rfl
  simp only [Spends, held, FinshTree.count] at hspends
  omega

/-- **Every operator of a line without an error has its operands.** -/
theorem wellFormed_of_finshParserRun (herrno : p.errno = none) : root.WellFormed := by
  have hno : ∀ q r, result (procBody e) q = some r → NoError q r :=
    fun q r hr => not_imp_not.mp (errno_of_returns hr)
  exact result_induct_of hno (meets_buildsTree e) (result_of_finshParserRun h) herrno trivial

end

end RtThread
