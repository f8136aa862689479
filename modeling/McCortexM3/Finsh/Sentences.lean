import McCortexM3.Finsh.Grammar

/-!
# Sentences and the functions of the finsh parser

What a function of the parser does in front of a token that does not continue its phrase, and when
what it calls has failed.

## Main definitions

* `Nonterminal.rank` — how tight a token binds that continues a phrase.
* `Fails` — a function of the parser returns with an error, if it does.
* `continues` — what is left to do behind what has been read of a phrase.

## Main results

* `Phrase.tokens_eq_cons` — how a sentence begins.
* `continues_exit` — in front of a token of a lower rank nothing is left to do.
* `fails_castExpr` — what is behind a parenthesis has to be a type.
-/

set_option linter.all false

namespace RtThread

open Option List Calls FinshParser

/-! ### Tokens -/

/-- How tight a token binds that continues a phrase; other tokens have `0`. -/
def FinshToken.rank : FinshToken → ℕ
  | .comma => 1
  | .assign => 2
  | .or => 3
  | .xor => 4
  | .and => 5
  | .shl | .shr => 6
  | .add | .sub => 7
  | .mul | .div | .mod => 8
  | .inc | .dec | .leftParen => 9
  | _ => 0

/-- The rank of the operations of a level. -/
def BinLevel.rank : BinLevel → ℕ
  | .inclusiveOr => 3
  | .exclusiveOr => 4
  | .and => 5
  | .shift => 6
  | .additive => 7
  | .multiplicative => 8

namespace Nonterminal

/-- A phrase ends in front of a token of a lower rank. -/
def rank : Nonterminal → ℕ
  | params => 1
  | assign => 2
  | binary l => l.rank
  | cast | unary | post => 9
  | primary => 10

/-- What has been read of a phrase is complete in front of a token of a lower rank. -/
def bound : Nonterminal → ℕ
  | params | assign => 2
  | binary l => l.rank + 1
  | cast | unary => 9
  | post | primary => 10

/-- The function of a nonterminal. -/
def proc : Nonterminal → Proc
  | assign => .assignExpr
  | binary l => .binary l
  | cast => .castExpr
  | unary => .unaryExpr
  | post => .postfixExpr
  | primary => .primaryExpr
  | params => .paramList

end Nonterminal

theorem rank_of_op {l : BinLevel} {t : FinshToken} {op : BinOp} (h : l.op t = some op) :
    t.rank = l.rank := by
  cases l <;> cases t <;> first | rfl | cases h

theorem op_of_rank {l : BinLevel} {t : FinshToken} (h : t.rank < l.rank) : l.op t = none := by
  cases hop : l.op t with
  | none => rfl
  | some op => exact absurd (rank_of_op hop) h.ne

theorem proc_next (l : BinLevel) : l.next.proc = l.operand := by
  cases l <;> rfl

theorem rank_next (l : BinLevel) : l.next.rank = l.rank + 1 := by
  cases l <;> rfl

theorem bound_next (l : BinLevel) : l.rank + 1 < l.next.bound ∨ l.next.bound = l.rank + 1 := by
  cases l <;> decide

/-- The tokens with which an expression begins. -/
def FinshToken.starts : FinshToken → Bool
  | .leftParen | .add | .sub | .inc | .dec | .bitwise | .mul | .and => true
  | .valueChar _ | .valueInt _ | .valueLong _ | .valueString _ | .valueNull | .identifier _ => true
  | _ => false

/-- The tokens with which an `expr_primary` begins. -/
def FinshToken.startsPrimary : FinshToken → Bool
  | .leftParen => true
  | .valueChar _ | .valueInt _ | .valueLong _ | .valueString _ | .valueNull | .identifier _ => true
  | _ => false

variable {known : List UInt8 → Option FinshSymbol}

theorem Phrase.tokens_eq_cons {n : Nonterminal} (ph : Phrase known n) (hn : n ≠ .params) :
    ∃ t ts, ph.tokens = t :: ts ∧ t.starts = true ∧
      ((n = .post ∨ n = .primary) → t.startsPrimary = true) ∧
      ((n = .unary ∨ n = .post ∨ n = .primary) → t = .leftParen →
        ∃ t' ts', ts = t' :: ts' ∧ t'.starts = true) := by
  induction ph with
  | assignOf a ih | castOf u ih =>
    obtain ⟨t, ts, htok, hstarts, -, -⟩ := ih (by simp)
    exact ⟨t, ts, htok, hstarts, by simp, by simp⟩
  | binaryOf l a ih =>
    obtain ⟨t, ts, htok, hstarts, -, -⟩ := ih (by cases l <;> simp [BinLevel.next])
    exact ⟨t, ts, htok, hstarts, by simp, by simp⟩
  | assign u a ihu =>
    obtain ⟨t, ts, htok, hstarts, -, -⟩ := ihu (by simp)
    exact ⟨t, _, by rw [tokens, htok, cons_append], hstarts, by simp, by simp⟩
  | binary l t op h a b iha =>
    obtain ⟨t, ts, htok, hstarts, -, -⟩ := iha (by simp)
    exact ⟨t, _, by rw [tokens, htok, cons_append], hstarts, by simp, by simp⟩
  | cast type c => exact ⟨_, _, rfl, rfl, by simp, by simp⟩
  | unaryOf a ih =>
    obtain ⟨t, ts, htok, hstarts, -, hparen⟩ := ih (by simp)
    exact ⟨t, ts, htok, hstarts, by simp, fun _ => hparen (by simp)⟩
  | plus c | minus c => exact ⟨_, _, rfl, rfl, by simp, by simp⟩
  | unary t nodeType h c =>
    refine ⟨t, _, rfl, ?_, by simp, ?_⟩
    · cases t <;> first | rfl | cases h
    · rintro - rfl
      cases h
  | postOf a ih =>
    obtain ⟨t, ts, htok, hstarts, hprimary, hparen⟩ := ih (by simp)
    exact ⟨t, ts, htok, hstarts, fun _ => hprimary (by simp), fun _ => hparen (by simp)⟩
  | inc a ih | dec a ih =>
    obtain ⟨t, ts, htok, hstarts, hprimary, hparen⟩ := ih (by simp)
    refine ⟨t, _, by rw [tokens, htok, cons_append], hstarts, fun _ => hprimary (by simp), ?_⟩
    intro _ ht
    obtain ⟨t', ts', rfl, hstarts'⟩ := hparen (by simp) ht
    exact ⟨t', _, rfl, hstarts'⟩
  | call a ps ih =>
    obtain ⟨t, ts, htok, hstarts, hprimary, hparen⟩ := ih (by simp)
    refine ⟨t, _, by rw [tokens, htok, cons_append, cons_append], hstarts,
      fun _ => hprimary (by simp), ?_⟩
    intro _ ht
    obtain ⟨t', ts', rfl, hstarts'⟩ := hparen (by simp) ht
    exact ⟨t', _, rfl, hstarts'⟩
  | literal t d h =>
    refine ⟨t, [], rfl, ?_, fun _ => ?_, fun _ ht => ?_⟩
    · cases t <;> first | rfl | cases h
    · cases t <;> first | rfl | cases h
    · rw [ht] at h
      cases h
  | paren a ih =>
    obtain ⟨t, ts, htok, hstarts, -, -⟩ := ih (by simp)
    refine ⟨_, _, rfl, rfl, fun _ => rfl, fun _ _ =>
      ⟨t, ts ++ [FinshToken.rightParen], ?_, hstarts⟩⟩
    rw [htok]
    rfl
  | ident name s h => exact ⟨_, _, rfl, rfl, fun _ => rfl, fun _ ht => by cases ht⟩
  | noParams | param a | params ps a => exact absurd rfl hn

/-! ### Functions that return at once -/

variable {e : FinshNames} {vars : List (List UInt8 × FinshType)} {p p' : FinshParser}
  {t : FinshToken} {ts : List FinshToken} {k : ℕ} {l : BinLevel} {node : FinshTree}

@[simp] theorem run_done (f : Proc × FinshParser → Option (FinshParser × FinshTree))
    (q : Proc × FinshParser) : (Calls.call q done).run f = f q := by
  rw [Calls.run]
  cases f q <;> rfl

theorem binaryLoop_exit (h : At vars p (t :: ts) k) (ht : t.rank < l.rank) (node : FinshTree) :
    ∃ p', returns e (.binaryLoop l node) p = some (p', node) ∧ At vars p' (t :: ts) k := by
  obtain ⟨p₁, hnext, -, hreplay⟩ := h.next
  refine ⟨p₁.replayToken, ?_, hreplay⟩
  rw [returns_binaryLoop]
  simp only [procBinaryLoop, hnext, op_of_rank ht]
  rfl

theorem postfixLoop_exit (h : At vars p (t :: ts) k) (ht : t.rank < 9) (node : FinshTree) :
    ∃ p', returns e (.postfixLoop node) p = some (p', node) ∧ At vars p' (t :: ts) k := by
  obtain ⟨p₁, hnext, -, hreplay⟩ := h.next
  have hinc : t ≠ .inc := by rintro rfl; exact absurd ht (by decide)
  have hdec : t ≠ .dec := by rintro rfl; exact absurd ht (by decide)
  have hparen : t ≠ .leftParen := by rintro rfl; exact absurd ht (by decide)
  refine ⟨p₁.replayToken, ?_, hreplay⟩
  rw [returns_postfixLoop]
  simp only [procPostfixLoop, hnext, if_neg hinc, if_neg hdec, if_neg hparen]
  rfl

theorem paramLoop_exit (h : At vars p (t :: ts) k) (ht : t.rank < 1) (node : FinshTree) :
    ∃ p', returns e (.paramLoop node) p = some (p', node) ∧ At vars p' (t :: ts) k := by
  obtain ⟨p₁, hnext, -, hreplay⟩ := h.next
  have hcomma : t ≠ .comma := by rintro rfl; exact absurd ht (by decide)
  refine ⟨p₁.replayToken, ?_, hreplay⟩
  rw [returns_paramLoop]
  simp only [procParamLoop, hnext, if_neg hcomma]
  rfl

/-- What is left to do behind what has been read of a phrase. -/
noncomputable def continues (e : FinshNames) (n : Nonterminal) (node : FinshTree)
    (p : FinshParser) : Option (FinshParser × FinshTree) :=
  match n with
  | .binary l => returns e (.binaryLoop l node) p
  | .post => returns e (.postfixLoop node) p
  | .params => returns e (.paramLoop node) p
  | _ => some (p, node)

theorem continues_exit {n : Nonterminal} (h : At vars p (t :: ts) k) (ht : t.rank < n.rank)
    (node : FinshTree) :
    ∃ p', continues e n node p = some (p', node) ∧ At vars p' (t :: ts) k := by
  cases n with
  | binary l => exact binaryLoop_exit h ht node
  | post => exact postfixLoop_exit h ht node
  | params => exact paramLoop_exit h ht node
  | assign | cast | unary | primary => exact ⟨p, rfl, h⟩

theorem binary_eq (h : returns e l.operand p = some (p', node)) :
    returns e (.binary l) p = returns e (.binaryLoop l node) p' := by
  rw [returns_binary]
  simp only [procBinary, Calls.run, h, bind_some]
  exact run_done _ _

theorem binary_of_operand (h : returns e l.operand p = some (p', node))
    (hat : At vars p' (t :: ts) k) (ht : t.rank < l.rank) :
    ∃ p', returns e (.binary l) p = some (p', node) ∧ At vars p' (t :: ts) k := by
  rw [binary_eq h]
  exact binaryLoop_exit hat ht node

theorem inclusiveOr_of_cast (h : returns e .castExpr p = some (p', node))
    (hat : At vars p' (t :: ts) k) (ht : t.rank < 3) :
    ∃ p', returns e (.binary .inclusiveOr) p = some (p', node) ∧ At vars p' (t :: ts) k := by
  obtain ⟨p₁, h₁, hat₁⟩ := binary_of_operand (l := .multiplicative) h hat (by rw [BinLevel.rank]; omega)
  obtain ⟨p₂, h₂, hat₂⟩ := binary_of_operand (l := .additive) h₁ hat₁ (by rw [BinLevel.rank]; omega)
  obtain ⟨p₃, h₃, hat₃⟩ := binary_of_operand (l := .shift) h₂ hat₂ (by rw [BinLevel.rank]; omega)
  obtain ⟨p₄, h₄, hat₄⟩ := binary_of_operand (l := .and) h₃ hat₃ (by rw [BinLevel.rank]; omega)
  obtain ⟨p₅, h₅, hat₅⟩ := binary_of_operand (l := .exclusiveOr) h₄ hat₄ (by rw [BinLevel.rank]; omega)
  exact binary_of_operand (l := .inclusiveOr) h₅ hat₅ ht

/-! ### Types -/

theorem typePointer_eq (type : FinshType) {pointer : Bool}
    (h : At vars p ((if pointer = true then [FinshToken.mul] else []) ++ .rightParen :: ts) k) :
    ∃ p', p.typePointer type = (p', if pointer = true then type.pointer else type) ∧
      At vars p' (.rightParen :: ts) k := by
  cases pointer with
  | true =>
    obtain ⟨p₁, hnext, hat, -⟩ := At.next (t := .mul) h
    exact ⟨p₁, by simp only [typePointer, hnext, if_true], hat⟩
  | false =>
    obtain ⟨p₁, hnext, -, hat⟩ := At.next (t := .rightParen) h
    refine ⟨p₁.replayToken, ?_, hat⟩
    simp only [typePointer, hnext, reduceCtorEq, Bool.false_eq_true, if_false]

theorem procType_eq {n : TypeName} (h : At vars p (n.tokens ++ .rightParen :: ts) k)
    (hbase : n.baseType.isSome = true) :
    ∃ p', p.procType = (p', n.type) ∧ At vars p' (.rightParen :: ts) k := by
  obtain ⟨unsigned, base, isBase, pointer⟩ := n
  obtain ⟨type, htype⟩ := isSome_iff_exists.mp hbase
  cases unsigned with
  | true =>
    obtain ⟨p₁, hnext, hat₁, -⟩ := At.next (t := .unsigned) h
    obtain ⟨p₂, hnext₂, hat₂, -⟩ := At.next (t := base) hat₁
    obtain ⟨p₃, hpointer, hat₃⟩ := typePointer_eq type hat₂
    refine ⟨p₃, ?_, hat₃⟩
    have hunsigned : base.unsignedType = some type := htype
    have hnone : FinshToken.unsigned.baseType = none := rfl
    simp only [procType, hnext, hnone, if_true, hnext₂]
    rw [if_pos isBase]
    simp only [hunsigned, hpointer, TypeName.type, TypeName.baseType, if_true, getD_some]
  | false =>
    obtain ⟨p₁, hnext, hat₁, -⟩ := At.next (t := base) h
    obtain ⟨p₂, hpointer, hat₂⟩ := typePointer_eq type hat₁
    refine ⟨p₂, ?_, hat₂⟩
    have hbase : base.baseType = some type := htype
    simp only [procType, hnext, hbase, hpointer, TypeName.type, TypeName.baseType,
      Bool.false_eq_true, if_false, getD_some]

theorem errno_procType_unsigned {n : TypeName} (h : At vars p (n.tokens ++ ts) k)
    (hbase : n.baseType = none) : p.procType.1.errno ≠ none := by
  obtain ⟨unsigned, base, isBase, pointer⟩ := n
  cases unsigned with
  | true =>
    obtain ⟨p₁, hnext, hat₁, -⟩ := At.next (t := .unsigned) h
    obtain ⟨p₂, hnext₂, -, -⟩ := At.next (t := base) hat₁
    have hunsigned : base.unsignedType = none := hbase
    have hnone : FinshToken.unsigned.baseType = none := rfl
    simp only [procType, hnext, hnone, if_true, hnext₂]
    rw [if_pos isBase]
    simp only [hunsigned]
    exact errno_setError _ _
  | false =>
    have hnone : base.baseType = none := hbase
    rw [hnone] at isBase
    cases isBase

theorem errno_procType_starts (h : At vars p (t :: ts) k) (ht : t.starts = true) :
    p.procType.1.errno ≠ none := by
  obtain ⟨p₁, hnext, -, -⟩ := h.next
  have hbase : t.baseType = none := by cases t <;> first | rfl | cases ht
  have hunsigned : t ≠ .unsigned := by
    rintro rfl
    cases ht
  simp only [procType, hnext, hbase, if_neg hunsigned]
  exact errno_setError _ _

/-! ### Functions that fail -/

/-- A function of the parser returns with an error, if it does. -/
def Fails (e : FinshNames) (q : Proc) (p : FinshParser) : Prop :=
  ∀ r, returns e q p = some r → r.1.errno ≠ none

theorem fails_binary (h : Fails e l.operand p) : Fails e (.binary l) p := by
  intro r hr
  rw [returns_binary] at hr
  simp only [procBinary, Calls.run, bind_eq_some_iff] at hr
  obtain ⟨r₁, h₁, r₂, h₂, hdone⟩ := hr
  cases hdone
  exact errno_of_returns h₂ (h r₁ h₁)

theorem fails_inclusiveOr (h : Fails e .castExpr p) : Fails e (.binary .inclusiveOr) p :=
  fails_binary (fails_binary (fails_binary (fails_binary (fails_binary
    (fails_binary (l := .multiplicative) h)))))

theorem fails_assignExpr (h : Fails e (.binary .inclusiveOr) p) : Fails e .assignExpr p := by
  intro r hr
  rw [returns_assignExpr] at hr
  simp only [procAssignExpr, Calls.run, bind_eq_some_iff] at hr
  obtain ⟨r₁, h₁, hrest⟩ := hr
  have hnext := errno_nextToken (h r₁ h₁)
  split at hrest
  · rw [Calls.run, bind_eq_some_iff] at hrest
    obtain ⟨r₂, h₂, hdone⟩ := hrest
    cases hdone
    exact errno_makeSysNode (errno_of_returns h₂ hnext)
  · cases hrest
    exact hnext

theorem fails_postfixExpr (h : Fails e .primaryExpr p) : Fails e .postfixExpr p := by
  intro r hr
  rw [returns_postfixExpr] at hr
  simp only [procPostfixExpr, Calls.run, bind_eq_some_iff] at hr
  obtain ⟨r₁, h₁, r₂, h₂, hdone⟩ := hr
  cases hdone
  exact errno_of_returns h₂ (h r₁ h₁)

theorem fails_paramList (h : Fails e .assignExpr p) : Fails e .paramList p := by
  intro r hr
  rw [returns_paramList] at hr
  simp only [procParamList, Calls.run, bind_eq_some_iff] at hr
  obtain ⟨r₁, h₁, hrest⟩ := hr
  split at hrest
  · cases hrest
    exact h r₁ h₁
  · rw [run_done] at hrest
    exact errno_of_returns hrest (h r₁ h₁)

/-- What is behind a parenthesis is taken for a type and an `expr_cast`. -/
theorem fails_castExpr {p₁ : FinshParser} (hnext : p.nextToken = (p₁, .leftParen))
    (h : p₁.procType.1.errno ≠ none) : Fails e .castExpr p := by
  intro r hr
  rw [returns_castExpr] at hr
  simp only [procCastExpr, hnext, if_true, Calls.run, bind_eq_some_iff] at hr
  obtain ⟨r₁, h₁, hrest⟩ := hr
  have hfail := errno_of_returns h₁ (errno_matchToken h)
  split at hrest
  · cases hrest
    exact hfail
  · rw [run_done] at hrest
    exact errno_of_returns hrest hfail

theorem fails_comma (h : At vars p (.comma :: ts) k) : Fails e .assignExpr p := by
  refine fails_assignExpr (fails_inclusiveOr ?_)
  obtain ⟨p₁, hnext, -, hat₁⟩ := h.next
  obtain ⟨p₂, hnext₂, -, hat₂⟩ := hat₁.next
  obtain ⟨p₃, hnext₃, -, -⟩ := hat₂.next
  have hprimary : Fails e .primaryExpr p₂.replayToken := by
    intro r hr
    rw [returns_primaryExpr] at hr
    simp only [procPrimaryExpr, hnext₃] at hr
    cases hr
    exact errno_setError _ _
  have hcast : returns e .castExpr p = returns e .postfixExpr p₂.replayToken := by
    rw [returns_castExpr]
    simp only [procCastExpr, hnext, reduceCtorEq, if_false, run_done]
    refine (returns_unaryExpr e _).trans ?_
    simp only [procUnaryExpr, hnext₂, reduceCtorEq, if_false, unaryNode, run_done]
  intro r hr
  rw [hcast] at hr
  exact fails_postfixExpr hprimary r hr

end RtThread
