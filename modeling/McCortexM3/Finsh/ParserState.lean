import McCortexM3.Finsh.Parser

/-!
# The state of the parser of finsh

An error that has been set stays until the end of the line.  The tokens that are still to be read
are those of the line, with the current one in front when it is replayed.

## Main definitions

* `FinshParser.At` — no error, and the tokens that are to be read.
* `returns` — what a function of the parser returns.

## Main results

* `errno_of_returns` — errors are kept.
-/

set_option linter.all false

namespace RtThread

open Option List Calls

namespace FinshParser

variable {p : FinshParser}

/-! ### Errors -/

theorem errno_setError (p : FinshParser) (e : FinshError) : (p.setError e).errno ≠ none :=
  some_ne_none e

theorem errno_nextToken (h : p.errno ≠ none) : p.nextToken.1.errno ≠ none := by
  rw [nextToken]
  split
  · exact h
  · split
    · exact h
    · dsimp only
      split
      · exact some_ne_none _
      · exact h

theorem errno_checkToken {token : FinshToken} {ok : FinshToken → Bool} (h : p.errno ≠ none) :
    (p.checkToken token ok).errno ≠ none := by
  rw [checkToken]
  split
  · exact h
  · exact some_ne_none _

theorem errno_matchToken {f : FinshToken → Bool} (h : p.errno ≠ none) :
    (p.matchToken f).1.errno ≠ none :=
  errno_checkToken (errno_nextToken h)

theorem errno_allocate {d : FinshNode} : (p.allocate d).1.errno = p.errno := by
  rw [allocate]
  split <;> rfl

theorem errno_newNode {d : FinshNode} (h : p.errno ≠ none) : (p.newNode d).1.errno ≠ none := by
  simp only [newNode]
  split
  · exact errno_setError _ _
  · rw [errno_allocate]
    exact h

theorem errno_newId {e : FinshNames} {name : List UInt8} (h : p.errno ≠ none) :
    (p.newId e name).1.errno ≠ none := by
  rw [newId]
  split
  · exact errno_newNode h
  · exact errno_setError _ _

theorem errno_varInsert {name : List UInt8} {type : FinshType} (h : p.errno ≠ none) :
    (p.varInsert name type).errno ≠ none := by
  rw [varInsert]
  split
  · exact errno_setError _ _
  · split
    · exact errno_setError _ _
    · exact h

theorem errno_makeSysNode {nodeType : NodeType} {t t' : FinshTree} (h : p.errno ≠ none) :
    (p.makeSysNode nodeType t t').1.errno ≠ none := by
  simp only [makeSysNode]
  split
  · rw [errno_allocate]
    exact h
  · exact errno_setError _ _

theorem errno_typePointer {type : FinshType} (h : p.errno ≠ none) :
    (p.typePointer type).1.errno ≠ none := by
  simp only [typePointer]
  split
  · exact errno_nextToken h
  · exact errno_nextToken h

theorem errno_procType (h : p.errno ≠ none) : p.procType.1.errno ≠ none := by
  have hnext := errno_nextToken h
  simp only [procType]
  split
  · exact errno_typePointer hnext
  · split
    · split
      · split
        · exact errno_typePointer (errno_nextToken hnext)
        · exact errno_setError _ _
      · exact errno_typePointer (errno_setError _ _)
    · exact errno_setError _ _

theorem errno_procIdentifier (h : p.errno ≠ none) : p.procIdentifier.1.errno ≠ none := by
  simp only [procIdentifier]
  split
  · exact errno_matchToken h
  · exact errno_matchToken h

/-- What a call that finds an error leaves. -/
def KeepsError (q : Proc × FinshParser) (r : FinshParser × FinshTree) : Prop :=
  q.2.errno ≠ none → r.1.errno ≠ none

theorem meets_keepsError (e : FinshNames) (q : Proc × FinshParser) (h : q.2.errno ≠ none) :
    (procBody e q).Meets KeepsError fun r => r.1.errno ≠ none := by
  obtain ⟨q, p⟩ := q
  have hnext := errno_nextToken h
  cases q with
  | assignExpr =>
    rintro ⟨p₁, or⟩ h₁
    have h₂ := errno_nextToken (h₁ h)
    dsimp only
    split
    · rintro ⟨p₃, assign⟩ h₃
      exact errno_makeSysNode (h₃ h₂)
    · exact h₂
  | binary l =>
    rintro ⟨p₁, node⟩ h₁ ⟨p₂, node'⟩ h₂
    exact h₂ (h₁ h)
  | binaryLoop l node =>
    simp only [procBody, procBinaryLoop]
    split
    · rintro ⟨p₁, node'⟩ h₁
      dsimp only
      split
      · rintro ⟨p₂, t⟩ h₂
        exact h₂ (errno_setError _ _)
      · rintro ⟨p₂, t⟩ h₂
        exact h₂ (errno_makeSysNode (h₁ hnext))
    · exact hnext
  | castExpr =>
    simp only [procBody, procCastExpr]
    split
    · rintro ⟨p₁, cast⟩ h₁
      have h₂ := h₁ (errno_matchToken (errno_procType hnext))
      dsimp only
      split
      · exact h₂
      · rintro ⟨p₃, t⟩ h₃
        exact h₃ h₂
    · rintro ⟨p₁, t⟩ h₁
      exact h₁ hnext
  | unaryExpr =>
    simp only [procBody, procUnaryExpr]
    split
    · rintro ⟨p₁, t⟩ h₁
      exact h₁ hnext
    · split
      · rintro ⟨p₁, t⟩ h₁
        exact errno_makeSysNode (errno_newNode (h₁ hnext))
      · split
        · rintro ⟨p₁, t⟩ h₁
          exact errno_makeSysNode (h₁ hnext)
        · rintro ⟨p₁, t⟩ h₁
          exact h₁ hnext
  | postfixExpr =>
    rintro ⟨p₁, node⟩ h₁ ⟨p₂, t⟩ h₂
    exact h₂ (h₁ h)
  | postfixLoop node =>
    simp only [procBody, procPostfixLoop]
    split
    · rintro ⟨p₁, t⟩ h₁
      exact h₁ (errno_makeSysNode hnext)
    · split
      · rintro ⟨p₁, t⟩ h₁
        exact h₁ (errno_makeSysNode hnext)
      · split
        · split
          · rintro ⟨p₁, params⟩ h₁ ⟨p₂, t⟩ h₂
            exact h₂ (errno_makeSysNode (errno_matchToken (h₁ (errno_nextToken hnext))))
          · rintro ⟨p₁, t⟩ h₁
            exact h₁ (errno_makeSysNode (errno_nextToken hnext))
        · exact hnext
  | primaryExpr =>
    change Meets _ _ (p.procPrimaryExpr e)
    rw [procPrimaryExpr]
    generalize p.nextToken = next at hnext
    obtain ⟨p₁, token⟩ := next
    cases token
    case identifier => exact errno_newId (errno_procIdentifier hnext)
    case leftParen =>
      rintro ⟨p₂, t⟩ h₂
      exact errno_matchToken (h₂ hnext)
    case valueChar | valueInt | valueLong | valueString | valueNull => exact errno_newNode hnext
    all_goals exact errno_setError _ _
  | paramList =>
    rintro ⟨p₁, assign⟩ h₁
    dsimp only
    split
    · exact h₁ h
    · rintro ⟨p₂, t⟩ h₂
      exact h₂ (h₁ h)
  | paramLoop node =>
    simp only [procBody, procParamLoop]
    split
    · rintro ⟨p₁, assign⟩ h₁ ⟨p₂, t⟩ h₂
      refine h₂ ?_
      dsimp only
      split
      · exact errno_setError _ _
      · exact h₁ hnext
    · exact hnext
  | exprStatement =>
    simp only [procBody, procExprStatement]
    split
    · rintro ⟨p₁, t⟩ h₁
      exact errno_matchToken (h₁ hnext)
    · exact hnext
  | variableDecl =>
    have hdecl := errno_nextToken (@errno_varInsert _ p.procType.1.procIdentifier.2
      p.procType.2 (errno_procIdentifier (errno_procType h)))
    simp only [procBody, procVariableDecl]
    split
    · rintro ⟨p₁, t⟩ h₁
      exact h₁ hdecl
    · split
      · rintro ⟨p₁, assign⟩ h₁
        dsimp only
        split
        · rintro ⟨p₂, t⟩ h₂
          exact h₂ (errno_nextToken (errno_makeSysNode (errno_newId (h₁ hdecl))))
        · rintro ⟨p₂, t⟩ h₂
          exact h₂ (h₁ hdecl)
      · split
        · exact hdecl
        · exact errno_setError _ _
  | declLoop type token node =>
    have hdecl := errno_nextToken (@errno_varInsert _ p.procIdentifier.2 type
      (errno_procIdentifier h))
    simp only [procBody, procDeclLoop]
    split
    · split
      · rintro ⟨p₁, assign⟩ h₁
        dsimp only
        split
        · rintro ⟨p₂, t⟩ h₂
          exact h₂ (errno_nextToken (errno_makeSysNode (errno_newId (h₁ hdecl))))
        · rintro ⟨p₂, t⟩ h₂
          exact h₂ (h₁ hdecl)
      · rintro ⟨p₁, t⟩ h₁
        exact h₁ hdecl
    · exact errno_checkToken h
  | run token root pos =>
    simp only [procBody, procRun]
    split
    · exact h
    · rintro ⟨p₁, node⟩ h₁
      have h₂ : p₁.errno ≠ none := h₁ h
      dsimp only
      split
      · split
        · exact h₂
        · rintro ⟨p₃, t⟩ h₃
          exact h₃ (errno_nextToken h₂)
      · rintro ⟨p₃, t⟩ h₃
        refine h₃ (errno_nextToken ?_)
        split
        · exact errno_nextToken h₂
        · exact h₂

end FinshParser

/-- What a function of the parser returns. -/
noncomputable abbrev returns (e : FinshNames) (q : Proc) (p : FinshParser) :
    Option (FinshParser × FinshTree) :=
  result (FinshParser.procBody e) (q, p)

section Returns

variable (e : FinshNames) (p : FinshParser)

theorem returns_assignExpr :
    returns e .assignExpr p = (p.procAssignExpr).run (result (FinshParser.procBody e)) :=
  result_eq _ _

theorem returns_binary (l : BinLevel) :
    returns e (.binary l) p = (p.procBinary l).run (result (FinshParser.procBody e)) :=
  result_eq _ _

theorem returns_binaryLoop (l : BinLevel) (node : FinshTree) :
    returns e (.binaryLoop l node) p = (p.procBinaryLoop l node).run (result (FinshParser.procBody e)) :=
  result_eq _ _

theorem returns_castExpr :
    returns e .castExpr p = (p.procCastExpr).run (result (FinshParser.procBody e)) :=
  result_eq _ _

theorem returns_unaryExpr :
    returns e .unaryExpr p = (p.procUnaryExpr).run (result (FinshParser.procBody e)) :=
  result_eq _ _

theorem returns_postfixExpr :
    returns e .postfixExpr p = (p.procPostfixExpr).run (result (FinshParser.procBody e)) :=
  result_eq _ _

theorem returns_postfixLoop (node : FinshTree) :
    returns e (.postfixLoop node) p = (p.procPostfixLoop node).run (result (FinshParser.procBody e)) :=
  result_eq _ _

theorem returns_primaryExpr :
    returns e .primaryExpr p = (p.procPrimaryExpr e).run (result (FinshParser.procBody e)) :=
  result_eq _ _

theorem returns_paramList :
    returns e .paramList p = (p.procParamList).run (result (FinshParser.procBody e)) :=
  result_eq _ _

theorem returns_paramLoop (node : FinshTree) :
    returns e (.paramLoop node) p = (p.procParamLoop node).run (result (FinshParser.procBody e)) :=
  result_eq _ _

theorem returns_exprStatement :
    returns e .exprStatement p = (p.procExprStatement).run (result (FinshParser.procBody e)) :=
  result_eq _ _

theorem returns_run (token : FinshToken) (root : FinshTree) (pos : ℕ) :
    returns e (.run token root pos) p = (p.procRun token root pos).run (result (FinshParser.procBody e)) :=
  result_eq _ _

end Returns

theorem errno_of_returns {e : FinshNames} {q : Proc} {p : FinshParser}
    {r : FinshParser × FinshTree} (hr : returns e q p = some r) (h : p.errno ≠ none) :
    r.1.errno ≠ none :=
  result_induct (q := (q, p)) (P := fun _ r => r.1.errno ≠ none)
    (FinshParser.meets_keepsError e) h hr

/-! ### Tokens that are to be read -/

/-- A node of two operands, or of one. -/
def FinshTree.sys (nodeType : NodeType) (t t' : FinshTree) : FinshTree :=
  .node (.sys nodeType) (t.setSibling t') .null

/-- What an identifier is known as when the variables are `vars`. -/
def knownAs (e : FinshNames) (vars : List (List UInt8 × FinshType)) (name : List UInt8) :
    Option FinshSymbol :=
  (FinshParser.start vars []).lookup e name

namespace FinshParser

/-- What is to be read. -/
def ahead (p : FinshParser) : List Lexeme :=
  if p.replay = true then ⟨p.current, false⟩ :: p.rest else p.rest

/-- There is no error, the tokens `ts` are to be read, and `n` nodes are used. -/
structure At (vars : List (List UInt8 × FinshType)) (p : FinshParser) (ts : List FinshToken)
    (n : ℕ) : Prop where
  ahead : p.ahead = ts.map (⟨·, false⟩)
  errno : p.errno = none
  nodes : p.nodes = n
  vars : p.vars = vars

namespace At

variable {vars : List (List UInt8 × FinshType)} {p : FinshParser} {t : FinshToken}
  {ts : List FinshToken} {n : ℕ}

theorem next (h : At vars p (t :: ts) n) :
    ∃ p', p.nextToken = (p', t) ∧ At vars p' ts n ∧ At vars p'.replayToken (t :: ts) n := by
  have hahead := h.ahead
  rw [FinshParser.ahead] at hahead
  rw [nextToken]
  split
  · next hreplay =>
    rw [if_pos hreplay, map_cons, List.cons.injEq, Lexeme.mk.injEq] at hahead
    obtain ⟨⟨hcur, -⟩, hrest⟩ := hahead
    rw [hcur]
    refine ⟨_, rfl, ⟨hrest, h.errno, h.nodes, h.vars⟩, ⟨?_, h.errno, h.nodes, h.vars⟩⟩
    rw [map_cons, ← hrest, ← hcur]
    rfl
  · next hreplay =>
    rw [if_neg hreplay] at hahead
    rw [hahead]
    refine ⟨_, rfl, ⟨?_, h.errno, h.nodes, h.vars⟩, ⟨?_, h.errno, h.nodes, h.vars⟩⟩
    · exact if_neg hreplay
    · exact if_pos rfl

theorem next_nil (h : At vars p [] n) : ∃ p', p.nextToken = (p', .eof) ∧ At vars p' [] n := by
  have hahead := h.ahead
  rw [FinshParser.ahead] at hahead
  rw [nextToken]
  split
  · next hreplay =>
    rw [if_pos hreplay] at hahead
    cases hahead
  · next hreplay =>
    rw [if_neg hreplay] at hahead
    rw [hahead]
    exact ⟨_, rfl, if_neg hreplay, h.errno, h.nodes, h.vars⟩

theorem matchToken {f : FinshToken → Bool} (h : At vars p (t :: ts) n) (hf : f t = true) :
    ∃ p', p.matchToken f = (p', t) ∧ At vars p' ts n := by
  obtain ⟨p', hnext, hat, -⟩ := h.next
  refine ⟨p', ?_, hat⟩
  rw [FinshParser.matchToken, hnext, checkToken, if_pos hf]

section

variable (h : At vars p ts n) (hn : n < finshNodeMax)
include h hn

theorem allocate (d : FinshNode) :
    ∃ p', p.allocate d = (p', .node d .null .null) ∧ At vars p' ts (n + 1) := by
  refine ⟨_, if_pos (by rw [h.nodes]; exact hn), h.ahead, h.errno, ?_, h.vars⟩
  exact congrArg (· + 1) h.nodes

theorem newNode (d : FinshNode) :
    ∃ p', p.newNode d = (p', .node d .null .null) ∧ At vars p' ts (n + 1) := by
  obtain ⟨p', hp', hat⟩ := h.allocate hn d
  refine ⟨p', ?_, hat⟩
  simp only [FinshParser.newNode, hp', reduceCtorEq, if_false]

theorem makeSysNode (nodeType : NodeType)
    {node₁ : FinshTree} (node₂ : FinshTree) (hnode : node₁ ≠ .null) :
    ∃ p', p.makeSysNode nodeType node₁ node₂ = (p', .sys nodeType node₁ node₂) ∧
      At vars p' ts (n + 1) := by
  obtain ⟨p', hp', hat⟩ := h.allocate hn (.sys nodeType)
  refine ⟨p', ?_, hat⟩
  cases node₁ with
  | null => exact absurd rfl hnode
  | node d c s => simp only [FinshParser.makeSysNode, hp', FinshTree.sys]

theorem newId {e : FinshNames} {name : List UInt8} {s : FinshSymbol} (hs : knownAs e vars name = some s) :
    ∃ p', p.newId e name = (p', .node (.ident s) .null .null) ∧ At vars p' ts (n + 1) := by
  have hlookup : p.lookup e name = some s := by
    rw [← hs, ← h.vars]
    rfl
  rw [FinshParser.newId, hlookup]
  exact h.newNode hn (.ident s)

end

end At

end FinshParser

end RtThread
