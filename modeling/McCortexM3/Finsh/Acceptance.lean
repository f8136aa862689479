import McCortexM3.Finsh.Sentences

/-!
# The sentences that the finsh parser accepts

A parenthesis in front of an expression is taken for that of a cast, whatever follows it.  So the
parser accepts exactly the sentences without parentheses around an expression, and builds their
trees.

## Main definitions

* `Phrase.ParsesAt` — what the functions of the parser return for a sentence in front of a token.
* `Phrase.line` — the line of an expression.

## Main results

* `Phrase.parses` — every sentence is parsed so.
* `accepts_iff` — the sentences that are accepted.
-/

set_option linter.all false

namespace RtThread

open Option List Calls FinshParser
open Nonterminal (proc)

variable {known : List UInt8 → Option FinshSymbol} {e : FinshNames}
  {vars : List (List UInt8 × FinshType)} {p p' : FinshParser} {t : FinshToken}
  {ts : List FinshToken} {k : ℕ} {l : BinLevel} {node : FinshTree}

/-! ### Sentences -/

theorem head_append {xs ys : List FinshToken} (h : (xs ++ ys).head? ≠ some t) :
    xs.head? ≠ some t := by
  cases xs with
  | nil => simp
  | cons x xs => exact h

theorem Phrase.tree_ne_null {n : Nonterminal} (ph : Phrase known n) (hn : n ≠ .params) :
    ph.tree ≠ .null := by
  induction ph with
  | assignOf a ih | castOf a ih | unaryOf a ih | plus a ih | postOf a ih | paren a ih =>
    exact ih (by simp)
  | binaryOf l a ih => exact ih (by cases l <;> simp [BinLevel.next])
  | cast type c ih =>
    have hc := ih (by simp)
    rw [tree]
    cases htree : c.tree with
    | null => exact absurd htree hc
    | node d child sibling => exact FinshTree.noConfusion
  | noParams | param a | params ps a => exact absurd rfl hn
  | _ => exact FinshTree.noConfusion

namespace Phrase

/-- What the functions of the parser return for a sentence `ph` in front of a token. -/
def ParsesAt (e : FinshNames) (vars : List (List UInt8 × FinshType)) {n : Nonterminal}
    (ph : Phrase (knownAs e vars) n) : Prop :=
  ∀ (p : FinshParser) (t : FinshToken) (ts : List FinshToken) (k : ℕ),
    At vars p (ph.tokens ++ t :: ts) k → t.rank < n.bound → k + ph.nodes ≤ finshNodeMax →
    ((n = .unary ∨ n = .post ∨ n = .primary) → ph.tokens.head? ≠ some .leftParen) →
    (n = .params → ph.tokens ≠ []) →
    (ph.Plain → ∃ p', At vars p' (t :: ts) (k + ph.nodes) ∧
      returns e n.proc p = continues e n ph.tree p') ∧
    (¬ ph.Plain → Fails e n.proc p)

variable {n : Nonterminal} {u : Phrase (knownAs e vars) .unary}
   {a : Phrase (knownAs e vars) .assign} {c : Phrase (knownAs e vars) .cast}

theorem ParsesAt.complete {ph : Phrase (knownAs e vars) n}
    (h : ph.ParsesAt e vars) (hat : At vars p (ph.tokens ++ t :: ts) k) (ht : t.rank < n.rank)
    (hbound : t.rank < n.bound) (hk : k + ph.nodes ≤ finshNodeMax)
    (hstart : (n = .unary ∨ n = .post ∨ n = .primary) → ph.tokens.head? ≠ some .leftParen)
    (hparams : n = .params → ph.tokens ≠ []) (hplain : ph.Plain) :
    ∃ p', returns e n.proc p = some (p', ph.tree) ∧ At vars p' (t :: ts) (k + ph.nodes) := by
  obtain ⟨p₁, hat₁, hreturns⟩ := (h p t ts k hat hbound hk hstart hparams).1 hplain
  obtain ⟨p₂, hcont, hat₂⟩ := continues_exit hat₁ ht ph.tree
  exact ⟨p₂, hreturns.trans hcont, hat₂⟩

theorem parsesAt_assignOf {a : Phrase (knownAs e vars) (.binary .inclusiveOr)}
    (ih : a.ParsesAt e vars) : (assignOf a).ParsesAt e vars := by
  intro p t ts k hat ht hk _ _
  have hrank : t.rank < 2 := ht
  refine ⟨fun hplain => ?_, fun hplain => ?_⟩
  · obtain ⟨p₁, h₁, hat₁⟩ := ih.complete hat (by simp only [Nonterminal.rank, BinLevel.rank]; omega)
      (by simp only [Nonterminal.bound, BinLevel.rank]; omega) hk (by simp) (by simp) hplain
    obtain ⟨p₂, hnext, -, hat₂⟩ := hat₁.next
    have hassign : t ≠ .assign := by
      rintro rfl
      exact absurd hrank (by decide)
    refine ⟨p₂.replayToken, hat₂, ?_⟩
    simp only [proc] at h₁ ⊢
    rw [returns_assignExpr]
    simp only [procAssignExpr, run, h₁, bind_some, hnext, if_neg hassign]
    rfl
  · exact fails_assignExpr ((ih p t ts k hat (by simp only [Nonterminal.bound, BinLevel.rank]; omega) hk
      (by simp) (by simp)).2 hplain)

theorem parsesAt_binaryOf {l : BinLevel} {a : Phrase (knownAs e vars) l.next}
    (ih : a.ParsesAt e vars) : (binaryOf l a).ParsesAt e vars := by
  intro p t ts k hat ht hk _ _
  have hrank : t.rank < l.rank + 1 := ht
  have hbound : t.rank < l.next.bound := by
    have hnext := bound_next l
    omega
  have hparams : l.next ≠ .params := by cases l <;> simp [BinLevel.next]
  have hstart : ¬ (l.next = .unary ∨ l.next = .post ∨ l.next = .primary) := by
    cases l <;> simp [BinLevel.next]
  refine ⟨fun hplain => ?_, fun hplain => ?_⟩
  · obtain ⟨p₁, h₁, hat₁⟩ := ih.complete hat (by rw [rank_next]; exact hrank) hbound hk
      (fun h => absurd h hstart) (fun h => absurd h hparams) hplain
    rw [proc_next] at h₁
    exact ⟨p₁, hat₁, binary_eq h₁⟩
  · refine fails_binary ?_
    rw [← proc_next]
    exact (ih p t ts k hat hbound hk (fun h => absurd h hstart)
      (fun h => absurd h hparams)).2 hplain

theorem parsesAt_binary {l : BinLevel} {t : FinshToken} {op : BinOp} {h : l.op t = some op}
    {a : Phrase (knownAs e vars) (.binary l)} {b : Phrase (knownAs e vars) l.next}
    (iha : a.ParsesAt e vars) (ihb : b.ParsesAt e vars) :
    (binary l t op h a b).ParsesAt e vars := by
  intro p t' ts k hat ht hk _ _
  have hrank : t'.rank < l.rank + 1 := ht
  have hbound : t'.rank < l.next.bound := by
    have hnext := bound_next l
    omega
  have hparams : l.next ≠ .params := by cases l <;> simp [BinLevel.next]
  have hstart : ¬ (l.next = .unary ∨ l.next = .post ∨ l.next = .primary) := by
    cases l <;> simp [BinLevel.next]
  have htokens : (binary l t op h a b).tokens ++ t' :: ts =
      a.tokens ++ t :: (b.tokens ++ t' :: ts) := by
    rw [tokens, append_assoc, cons_append]
  rw [htokens] at hat
  rw [nodes] at hk ⊢
  obtain ⟨hgood, hbad⟩ := iha p t _ k hat (by rw [rank_of_op h]; exact Nat.lt_succ_self _)
    (by omega) (by simp) (by simp)
  by_cases hplain : a.Plain
  · obtain ⟨p₁, hat₁, h₁⟩ := hgood hplain
    obtain ⟨p₂, hnext, hat₂, -⟩ := hat₁.next
    -- the loop reads the operation, and then the second operand
    refine ⟨fun hplain' => ?_, fun hplain' => ?_⟩
    · obtain ⟨p₃, h₃, hat₃⟩ := ihb.complete hat₂ (by rw [rank_next]; exact hrank) hbound (by omega)
        (fun h => absurd h hstart) (fun h => absurd h hparams) hplain'.2
      rw [proc_next] at h₃
      obtain ⟨p₄, hmake, hat₄⟩ := hat₃.makeSysNode (by omega) op.nodeType b.tree
        (a.tree_ne_null (by simp))
      refine ⟨p₄, by rw [← Nat.add_assoc, ← Nat.add_assoc]; exact hat₄, ?_⟩
      rw [h₁, continues, returns_binaryLoop]
      simp only [procBinaryLoop, hnext, h, run, h₃, bind_some,
        if_neg (b.tree_ne_null hparams), hmake]
      exact run_done _ _
    · have hb : ¬ b.Plain := fun hb => hplain' ⟨hplain, hb⟩
      have hfails := (ihb p₂ t' ts _ hat₂ hbound (by omega) (fun h => absurd h hstart)
        (fun h => absurd h hparams)).2 hb
      rw [proc_next] at hfails
      intro r hr
      rw [h₁, continues, returns_binaryLoop] at hr
      simp only [procBinaryLoop, hnext, h, run, bind_eq_some_iff] at hr
      obtain ⟨r₃, h₃, hrest⟩ := hr
      split at hrest
      · rw [run_done] at hrest
        exact errno_of_returns hrest (errno_setError _ _)
      · rw [run_done] at hrest
        exact errno_of_returns hrest (errno_makeSysNode (hfails r₃ h₃))
  · exact ⟨fun hplain' => absurd hplain'.1 hplain, fun _ => hbad hplain⟩

theorem Plain.head {ph : Phrase known n} (h : ph.Plain)
    (hn : n = .unary ∨ n = .post ∨ n = .primary) : ph.tokens.head? ≠ some .leftParen := by
  induction ph with
  | unaryOf a ih => exact ih h (by simp)
  | postOf a ih => exact ih h (by simp)
  | plus c | minus c => simp [tokens]
  | unary t nodeType ht c | literal t d ht =>
    rintro heq
    obtain rfl : t = .leftParen := some.inj heq
    cases ht
  | inc a ih | dec a ih =>
    obtain ⟨t, ts, htok, -⟩ := a.tokens_eq_cons (by simp)
    have hhead := ih h (by simp)
    rw [htok] at hhead
    rw [tokens, htok]
    exact hhead
  | call a ps ih =>
    obtain ⟨t, ts, htok, -⟩ := a.tokens_eq_cons (by simp)
    have hhead := ih h.1 (by simp)
    rw [htok] at hhead
    rw [tokens, htok]
    exact hhead
  | paren a => exact absurd h id
  | ident name s hs => simp [tokens]
  | _ => simp at hn

theorem castExpr_of_unary (ih : u.ParsesAt e vars)
    (hat : At vars p (u.tokens ++ t :: ts) k) (ht : t.rank < 9) (hk : k + u.nodes ≤ finshNodeMax) :
    (u.Plain → ∃ p', returns e .castExpr p = some (p', u.tree) ∧
      At vars p' (t :: ts) (k + u.nodes)) ∧ (¬ u.Plain → Fails e .castExpr p) := by
  obtain ⟨t₀, ts₀, htok, -, -, hparen⟩ := u.tokens_eq_cons (by simp)
  by_cases hhead : u.tokens.head? = some .leftParen
  · -- the parenthesis is taken for that of a cast
    refine ⟨fun hplain => absurd hhead (hplain.head (by simp)), fun _ => ?_⟩
    rw [htok] at hhead hat
    obtain rfl : t₀ = .leftParen := some.inj hhead
    obtain ⟨t₁, ts₁, rfl, hstarts⟩ := hparen (by simp) rfl
    obtain ⟨p₁, hnext, hat₁, -⟩ := At.next hat
    exact fails_castExpr hnext (errno_procType_starts hat₁ hstarts)
  · have hne : t₀ ≠ .leftParen := by
      rintro rfl
      rw [htok] at hhead
      exact hhead rfl
    obtain ⟨p₁, hnext, hat₁⟩ : ∃ p₁, p.nextToken = (p₁, t₀) ∧
        At vars p₁.replayToken (u.tokens ++ t :: ts) k := by
      rw [htok] at hat ⊢
      obtain ⟨p₁, hnext, -, hat₁⟩ := At.next hat
      exact ⟨p₁, hnext, hat₁⟩
    have hcast : returns e .castExpr p = returns e .unaryExpr p₁.replayToken := by
      rw [returns_castExpr]
      simp only [procCastExpr, hnext, if_neg hne]
      exact run_done _ _
    refine ⟨fun hplain => ?_, fun hplain => ?_⟩
    · rw [hcast]
      exact ih.complete hat₁ ht ht hk (fun _ => hhead) (by simp) hplain
    · intro r hr
      rw [hcast] at hr
      exact (ih _ t ts k hat₁ ht hk (fun _ => hhead) (by simp)).2 hplain r hr

theorem parsesAt_castOf (ih : u.ParsesAt e vars) : (castOf u).ParsesAt e vars := by
  intro p t ts k hat ht hk _ _
  obtain ⟨hgood, hbad⟩ := castExpr_of_unary ih hat ht hk
  refine ⟨fun hplain => ?_, hbad⟩
  obtain ⟨p₁, h₁, hat₁⟩ := hgood hplain
  exact ⟨p₁, hat₁, h₁⟩

theorem parsesAt_assign
    (ihu : u.ParsesAt e vars) (iha : a.ParsesAt e vars) : (assign u a).ParsesAt e vars := by
  intro p t ts k hat ht hk _ _
  have htokens : (assign u a).tokens ++ t :: ts = u.tokens ++ .assign :: (a.tokens ++ t :: ts) := by
    rw [tokens, append_assoc, cons_append]
  rw [htokens] at hat
  rw [nodes] at hk ⊢
  obtain ⟨hgood, hbad⟩ := castExpr_of_unary ihu hat (by decide) (by omega)
  by_cases hplain : u.Plain
  · obtain ⟨p₁, h₁, hat₁⟩ := hgood hplain
    obtain ⟨p₂, h₂, hat₂⟩ := inclusiveOr_of_cast h₁ hat₁ (by decide)
    obtain ⟨p₃, hnext, hat₃, -⟩ := hat₂.next
    refine ⟨fun hplain' => ?_, fun hplain' => ?_⟩
    · obtain ⟨p₄, h₄, hat₄⟩ := iha.complete hat₃ ht ht (by omega) (by simp) (by simp) hplain'.2
      obtain ⟨p₅, hmake, hat₅⟩ := hat₄.makeSysNode (by omega) .sysAssign a.tree
        (u.tree_ne_null (by simp))
      refine ⟨p₅, by rw [← Nat.add_assoc, ← Nat.add_assoc]; exact hat₅, ?_⟩
      simp only [proc] at h₄ ⊢
      rw [returns_assignExpr]
      simp only [procAssignExpr, run, h₂, bind_some, hnext, if_true, h₄, hmake]
      rfl
    · have ha : ¬ a.Plain := fun ha => hplain' ⟨hplain, ha⟩
      have hfails := (iha p₃ t ts _ hat₃ ht (by omega) (by simp) (by simp)).2 ha
      intro r hr
      simp only [proc] at hr hfails
      rw [returns_assignExpr] at hr
      simp only [procAssignExpr, run, h₂, bind_some, hnext, if_true, bind_eq_some_iff] at hr
      obtain ⟨r₄, h₄, hdone⟩ := hr
      cases hdone
      exact errno_makeSysNode (hfails r₄ h₄)
  · exact ⟨fun hplain' => absurd hplain'.1 hplain,
      fun _ => fails_assignExpr (fails_inclusiveOr (hbad hplain))⟩

theorem parsesAt_cast {type : TypeName}
    (ih : c.ParsesAt e vars) : (cast type c).ParsesAt e vars := by
  intro p t ts k hat ht hk _ _
  have htokens : (cast type c).tokens ++ t :: ts =
      .leftParen :: (type.tokens ++ .rightParen :: (c.tokens ++ t :: ts)) := by
    simp [tokens]
  rw [htokens] at hat
  rw [nodes] at hk ⊢
  obtain ⟨p₁, hnext, hat₁, -⟩ := hat.next
  by_cases htype : type.baseType.isSome = true
  · obtain ⟨p₂, hproc, hat₂⟩ := procType_eq hat₁ htype
    obtain ⟨p₃, hmatch, hat₃⟩ := hat₂.matchToken (f := (· = .rightParen)) rfl
    refine ⟨fun hplain => ?_, fun hplain => ?_⟩
    · obtain ⟨p₄, h₄, hat₄⟩ := ih.complete hat₃ ht ht hk (by simp) (by simp) hplain.2
      refine ⟨p₄, hat₄, ?_⟩
      simp only [proc] at h₄ ⊢
      rw [returns_castExpr]
      simp only [procCastExpr, hnext, if_true, hproc, hmatch, run, h₄,
        bind_some, if_pos (c.tree_ne_null (by simp))]
      rfl
    · have hc : ¬ c.Plain := fun hc => hplain ⟨htype, hc⟩
      have hfails := (ih p₃ t ts _ hat₃ ht hk (by simp) (by simp)).2 hc
      intro r hr
      simp only [proc] at hr hfails
      rw [returns_castExpr] at hr
      simp only [procCastExpr, hnext, if_true, hproc, hmatch, run, bind_eq_some_iff] at hr
      obtain ⟨r₄, h₄, hrest⟩ := hr
      split at hrest
      · cases hrest
        exact hfails r₄ h₄
      · rw [run_done] at hrest
        exact errno_of_returns hrest (hfails r₄ h₄)
  · refine ⟨fun hplain => absurd hplain.1 htype, fun _ => fails_castExpr hnext ?_⟩
    exact errno_procType_unsigned hat₁ (by simpa using htype)

theorem parsesAt_unaryOf {a : Phrase (knownAs e vars) .post} (ih : a.ParsesAt e vars) :
    (unaryOf a).ParsesAt e vars := by
  intro p t ts k hat ht hk hstart _
  have hrank : t.rank < 9 := ht
  have hhead : a.tokens.head? ≠ some .leftParen := hstart (by simp)
  obtain ⟨t₀, ts₀, htok, -, hprimary, -⟩ := a.tokens_eq_cons (by simp)
  have hstarts := hprimary (by simp)
  obtain ⟨p₁, hnext, hat₁⟩ : ∃ p₁, p.nextToken = (p₁, t₀) ∧
      At vars p₁.replayToken (a.tokens ++ t :: ts) k := by
    rw [tokens] at hat
    rw [htok] at hat ⊢
    obtain ⟨p₁, hnext, -, hat₁⟩ := At.next hat
    exact ⟨p₁, hnext, hat₁⟩
  -- what begins an `expr_primary` is no operator
  have hadd : t₀ ≠ .add := by rintro rfl; cases hstarts
  have hsub : t₀ ≠ .sub := by rintro rfl; cases hstarts
  have hunary : unaryNode t₀ = none := by cases t₀ <;> first | rfl | cases hstarts
  have hreturns : returns e .unaryExpr p = returns e .postfixExpr p₁.replayToken := by
    rw [returns_unaryExpr]
    simp only [procUnaryExpr, hnext, if_neg hadd, if_neg hsub, hunary]
    exact run_done _ _
  refine ⟨fun hplain => ?_, fun hplain => ?_⟩
  · obtain ⟨p₂, h₂, hat₂⟩ := ih.complete hat₁ hrank (hrank.trans (by decide)) hk (fun _ => hhead)
      (by simp) hplain
    exact ⟨p₂, hat₂, hreturns.trans h₂⟩
  · intro r hr
    simp only [proc] at hr
    rw [hreturns] at hr
    exact (ih _ t ts k hat₁ (hrank.trans (by decide)) hk (fun _ => hhead) (by simp)).2 hplain r hr

theorem parsesAt_plus (ih : c.ParsesAt e vars) : (plus c).ParsesAt e vars := by
  intro p t ts k hat ht hk _ _
  obtain ⟨p₁, hnext, hat₁, -⟩ := At.next (t := .add) hat
  have hreturns : returns e .unaryExpr p = returns e .castExpr p₁ := by
    rw [returns_unaryExpr]
    simp only [procUnaryExpr, hnext, if_true]
    exact run_done _ _
  refine ⟨fun hplain => ?_, fun hplain => ?_⟩
  · obtain ⟨p₂, h₂, hat₂⟩ := ih.complete hat₁ ht ht hk (by simp) (by simp) hplain
    exact ⟨p₂, hat₂, hreturns.trans h₂⟩
  · intro r hr
    simp only [proc] at hr
    rw [hreturns] at hr
    exact (ih _ t ts k hat₁ ht hk (by simp) (by simp)).2 hplain r hr

theorem parsesAt_minus (ih : c.ParsesAt e vars) : (minus c).ParsesAt e vars := by
  intro p t ts k hat ht hk _ _
  rw [nodes] at hk ⊢
  obtain ⟨p₁, hnext, hat₁, -⟩ := At.next (t := .sub) hat
  refine ⟨fun hplain => ?_, fun hplain => ?_⟩
  · obtain ⟨p₂, h₂, hat₂⟩ := ih.complete hat₁ ht ht (by omega) (by simp) (by simp) hplain
    obtain ⟨p₃, hnew, hat₃⟩ := hat₂.newNode (by omega) (.const .valueLong 0)
    have hzero : FinshTree.node (.const .valueLong 0) .null .null ≠ .null := by simp
    obtain ⟨p₄, hmake, hat₄⟩ := hat₃.makeSysNode (by omega) .sysSub c.tree hzero
    refine ⟨p₄, by rw [← Nat.add_assoc]; exact hat₄, ?_⟩
    simp only [proc] at h₂ ⊢
    rw [returns_unaryExpr]
    simp only [procUnaryExpr, hnext, reduceCtorEq, if_false, if_true, run, h₂,
      bind_some, hnew, hmake]
    rfl
  · have hfails := (ih p₁ t ts k hat₁ ht (by omega) (by simp) (by simp)).2 hplain
    intro r hr
    simp only [proc] at hr hfails
    rw [returns_unaryExpr] at hr
    simp only [procUnaryExpr, hnext, reduceCtorEq, if_false, if_true, run, bind_eq_some_iff] at hr
    obtain ⟨r₂, h₂, hdone⟩ := hr
    cases hdone
    exact errno_makeSysNode (errno_newNode (hfails r₂ h₂))

theorem parsesAt_unary {t : FinshToken} {nodeType : NodeType} {h : unaryNode t = some nodeType}
    (ih : c.ParsesAt e vars) :
    (unary t nodeType h c).ParsesAt e vars := by
  intro p t' ts k hat ht hk _ _
  rw [nodes] at hk ⊢
  obtain ⟨p₁, hnext, hat₁, -⟩ := At.next (t := t) hat
  have hadd : t ≠ .add := by rintro rfl; cases h
  have hsub : t ≠ .sub := by rintro rfl; cases h
  refine ⟨fun hplain => ?_, fun hplain => ?_⟩
  · obtain ⟨p₂, h₂, hat₂⟩ := ih.complete hat₁ ht ht (by omega) (by simp) (by simp) hplain
    obtain ⟨p₃, hmake, hat₃⟩ := hat₂.makeSysNode (by omega) nodeType .null (c.tree_ne_null (by simp))
    refine ⟨p₃, hat₃, ?_⟩
    simp only [proc] at h₂ ⊢
    rw [returns_unaryExpr]
    simp only [procUnaryExpr, hnext, if_neg hadd, if_neg hsub, h, run, h₂, bind_some, hmake]
    rfl
  · have hfails := (ih p₁ t' ts k hat₁ ht (by omega) (by simp) (by simp)).2 hplain
    intro r hr
    simp only [proc] at hr hfails
    rw [returns_unaryExpr] at hr
    simp only [procUnaryExpr, hnext, if_neg hadd, if_neg hsub, h, run, bind_eq_some_iff] at hr
    obtain ⟨r₂, h₂, hdone⟩ := hr
    cases hdone
    exact errno_makeSysNode (hfails r₂ h₂)

theorem postfixExpr_eq (h : returns e .primaryExpr p = some (p', node)) :
    returns e .postfixExpr p = returns e (.postfixLoop node) p' := by
  rw [returns_postfixExpr]
  simp only [procPostfixExpr, run, h, bind_some]
  exact run_done _ _

theorem parsesAt_postOf {a : Phrase (knownAs e vars) .primary} (ih : a.ParsesAt e vars) :
    (postOf a).ParsesAt e vars := by
  intro p t ts k hat ht hk hstart _
  refine ⟨fun hplain => ?_, fun hplain => ?_⟩
  · obtain ⟨p₁, h₁, hat₁⟩ := ih.complete hat ht ht hk (fun _ => hstart (by simp)) (by simp) hplain
    exact ⟨p₁, hat₁, postfixExpr_eq h₁⟩
  · exact fails_postfixExpr ((ih p t ts k hat ht hk (fun _ => hstart (by simp)) (by simp)).2 hplain)

theorem parsesAt_inc {a : Phrase (knownAs e vars) .post} (ih : a.ParsesAt e vars) :
    (inc a).ParsesAt e vars := by
  intro p t ts k hat ht hk hstart _
  rw [tokens, append_assoc] at hat
  rw [nodes] at hk ⊢
  obtain ⟨hgood, hbad⟩ := ih p .inc _ k hat (by decide) (by omega)
    (fun hn => head_append (hstart hn)) (by simp)
  refine ⟨fun hplain => ?_, hbad⟩
  obtain ⟨p₁, hat₁, h₁⟩ := hgood hplain
  obtain ⟨p₂, hnext, hat₂, -⟩ := hat₁.next
  obtain ⟨p₃, hmake, hat₃⟩ := hat₂.makeSysNode (by omega) .sysInc .null (a.tree_ne_null (by simp))
  refine ⟨p₃, hat₃, ?_⟩
  rw [proc] at h₁
  rw [proc, h₁, continues, returns_postfixLoop]
  simp only [procPostfixLoop, hnext, if_true, hmake]
  exact run_done _ _

theorem parsesAt_dec {a : Phrase (knownAs e vars) .post} (ih : a.ParsesAt e vars) :
    (dec a).ParsesAt e vars := by
  intro p t ts k hat ht hk hstart _
  rw [tokens, append_assoc] at hat
  rw [nodes] at hk ⊢
  obtain ⟨hgood, hbad⟩ := ih p .dec _ k hat (by decide) (by omega)
    (fun hn => head_append (hstart hn)) (by simp)
  refine ⟨fun hplain => ?_, hbad⟩
  obtain ⟨p₁, hat₁, h₁⟩ := hgood hplain
  obtain ⟨p₂, hnext, hat₂, -⟩ := hat₁.next
  obtain ⟨p₃, hmake, hat₃⟩ := hat₂.makeSysNode (by omega) .sysDec .null (a.tree_ne_null (by simp))
  refine ⟨p₃, hat₃, ?_⟩
  rw [proc] at h₁
  rw [proc, h₁, continues, returns_postfixLoop]
  simp only [procPostfixLoop, hnext, reduceCtorEq, if_false, if_true, hmake]
  exact run_done _ _

theorem eq_noParams (ps : Phrase known .params) (h : ps.tokens = []) :
    ps.Plain ∧ ps.tree = .null ∧ ps.nodes = 0 := by
  cases ps with
  | noParams => exact ⟨trivial, rfl, rfl⟩
  | param a =>
    obtain ⟨t, ts, htok, -⟩ := a.tokens_eq_cons (by simp)
    rw [tokens, htok] at h
    cases h
  | params ps a => simp [tokens] at h

theorem params_eq_cons (ps : Phrase known n) (h : ps.tokens ≠ []) :
    ∃ t ts, ps.tokens = t :: ts ∧ t ≠ .rightParen := by
  by_cases hn : n = .params
  · induction ps with
    | noParams => exact absurd rfl h
    | param a =>
      obtain ⟨t, ts, htok, hstarts, -⟩ := a.tokens_eq_cons (by simp)
      exact ⟨t, ts, htok, by rintro rfl; cases hstarts⟩
    | params ps a ih =>
      by_cases hempty : ps.tokens = []
      · exact ⟨.comma, a.tokens, by rw [tokens, hempty, nil_append], by simp⟩
      · obtain ⟨t, ts, htok, hne⟩ := ih hempty hn
        exact ⟨t, _, by rw [tokens, htok, cons_append], hne⟩
    | _ => simp at hn
  · obtain ⟨t, ts, htok, hstarts, -⟩ := ps.tokens_eq_cons hn
    exact ⟨t, ts, htok, by rintro rfl; cases hstarts⟩

theorem parsesAt_call {a : Phrase (knownAs e vars) .post} {ps : Phrase (knownAs e vars) .params}
    (iha : a.ParsesAt e vars) (ihps : ps.ParsesAt e vars) : (call a ps).ParsesAt e vars := by
  intro p t ts k hat ht hk hstart _
  have htokens : (call a ps).tokens ++ t :: ts =
      a.tokens ++ .leftParen :: (ps.tokens ++ .rightParen :: t :: ts) := by
    simp [tokens]
  rw [htokens] at hat
  rw [nodes] at hk ⊢
  have hhead : a.tokens.head? ≠ some .leftParen := by
    have h := hstart (by simp)
    rw [tokens, append_assoc] at h
    exact head_append h
  obtain ⟨hgood, hbad⟩ := iha p .leftParen _ k hat (by decide) (by omega) (fun _ => hhead) (by simp)
  by_cases hplain : a.Plain
  · obtain ⟨p₁, hat₁, h₁⟩ := hgood hplain
    obtain ⟨p₂, hnext, hat₂, -⟩ := hat₁.next
    rw [proc] at h₁
    by_cases hempty : ps.tokens = []
    · -- there are no parameters
      obtain ⟨hplain', htree, hnodes⟩ := ps.eq_noParams hempty
      refine ⟨fun _ => ?_, fun h => absurd ⟨hplain, hplain'⟩ h⟩
      rw [hempty, nil_append] at hat₂
      obtain ⟨p₃, hnext₃, hat₃, -⟩ := hat₂.next
      obtain ⟨p₄, hmake, hat₄⟩ := hat₃.makeSysNode (by omega) .sysFunc .null
        (a.tree_ne_null (by simp))
      refine ⟨p₄, by rw [hnodes, Nat.add_zero]; exact hat₄, ?_⟩
      rw [proc, h₁, continues, returns_postfixLoop]
      simp only [procPostfixLoop, hnext, reduceCtorEq, if_false, if_true, hnext₃, ne_eq,
        not_true_eq_false, hmake]
      rw [run_done, tree, htree]
      rfl
    · -- the first token of the parameters is replayed
      obtain ⟨t₃, p₃, hnext₃, hne, hat₃⟩ : ∃ t₃ p₃, p₂.nextToken = (p₃, t₃) ∧ t₃ ≠ .rightParen ∧
          At vars p₃.replayToken (ps.tokens ++ .rightParen :: t :: ts) (k + a.nodes) := by
        obtain ⟨t₃, ts₃, htok, hne⟩ := ps.params_eq_cons hempty
        rw [htok] at hat₂ ⊢
        obtain ⟨p₃, hnext₃, -, hat₃⟩ := At.next hat₂
        exact ⟨t₃, p₃, hnext₃, hne, hat₃⟩
      refine ⟨fun hplain' => ?_, fun hplain' => ?_⟩
      · obtain ⟨p₄, h₄, hat₄⟩ := ihps.complete hat₃ (by decide) (by decide) (by omega) (by simp)
          (fun _ => hempty) hplain'.2
        obtain ⟨p₅, hmatch, hat₅⟩ := hat₄.matchToken (f := (· = .rightParen)) rfl
        obtain ⟨p₆, hmake, hat₆⟩ := hat₅.makeSysNode (by omega) .sysFunc ps.tree
          (a.tree_ne_null (by simp))
        refine ⟨p₆, by rw [← Nat.add_assoc, ← Nat.add_assoc]; exact hat₆, ?_⟩
        rw [proc] at h₄
        rw [proc, h₁, continues, returns_postfixLoop]
        simp only [procPostfixLoop, hnext, reduceCtorEq, if_false, if_true, hnext₃, ne_eq,
          hne, not_false_eq_true, run, h₄, bind_some, hmatch, hmake]
        exact run_done _ _
      · have hps : ¬ ps.Plain := fun hps => hplain' ⟨hplain, hps⟩
        have hfails := (ihps _ .rightParen _ _ hat₃ (by decide) (by omega) (by simp)
          (fun _ => hempty)).2 hps
        intro r hr
        rw [proc] at hfails
        rw [proc, h₁, continues, returns_postfixLoop] at hr
        simp only [procPostfixLoop, hnext, reduceCtorEq, if_false, if_true, hnext₃, ne_eq,
          hne, not_false_eq_true, run, bind_eq_some_iff] at hr
        obtain ⟨r₄, h₄, r₅, h₅, hdone⟩ := hr
        cases hdone
        exact errno_of_returns h₅ (errno_makeSysNode (errno_matchToken (hfails r₄ h₄)))
  · exact ⟨fun hplain' => absurd hplain'.1 hplain, fun _ => hbad hplain⟩

theorem parsesAt_literal {t : FinshToken} {d : FinshNode} {h : t.literal = some d} :
    (literal t d h : Phrase (knownAs e vars) .primary).ParsesAt e vars := by
  intro p t' ts k hat _ hk _ _
  rw [nodes] at hk ⊢
  obtain ⟨p₁, hnext, hat₁, -⟩ := At.next (t := t) hat
  obtain ⟨p₂, hnew, hat₂⟩ := hat₁.newNode (by omega) d
  refine ⟨fun _ => ⟨p₂, hat₂, ?_⟩, fun hplain => absurd trivial hplain⟩
  rw [proc, returns_primaryExpr]
  rw [procPrimaryExpr, hnext]
  cases t with
  | valueInt v | valueLong v | valueChar v | valueString v | valueNull =>
    cases h
    exact congrArg some hnew
  | _ => cases h

theorem parsesAt_ident {name : List UInt8} {s : FinshSymbol} {h : knownAs e vars name = some s} :
    (ident name s h).ParsesAt e vars := by
  intro p t ts k hat _ hk _ _
  rw [nodes] at hk ⊢
  obtain ⟨p₁, hnext, -, hat₁⟩ := At.next (t := .identifier name) hat
  obtain ⟨p₂, hmatch, hat₂⟩ := hat₁.matchToken (f := isIdentifier) rfl
  obtain ⟨p₃, hnew, hat₃⟩ := hat₂.newId (by omega) h
  refine ⟨fun _ => ⟨p₃, hat₃, ?_⟩, fun hplain => absurd trivial hplain⟩
  rw [proc, returns_primaryExpr]
  simp only [procPrimaryExpr, hnext, procIdentifier, hmatch, hnew]
  rfl

theorem parsesAt_paren : (paren a).ParsesAt e vars := by
  intro p t ts k _ _ _ hstart _
  exact absurd rfl (hstart (by simp))

theorem parsesAt_noParams : (noParams : Phrase (knownAs e vars) .params).ParsesAt e vars := by
  intro p t ts k _ _ _ _ hparams
  exact absurd rfl (hparams rfl)

theorem parsesAt_param (ih : a.ParsesAt e vars) : (param a).ParsesAt e vars := by
  intro p t ts k hat ht hk _ _
  refine ⟨fun hplain => ?_, fun hplain => ?_⟩
  · obtain ⟨p₁, h₁, hat₁⟩ := ih.complete hat ht ht hk (by simp) (by simp) hplain
    refine ⟨p₁, hat₁, ?_⟩
    rw [proc] at h₁
    rw [proc, returns_paramList]
    simp only [procParamList, run, h₁, bind_some, if_neg (a.tree_ne_null (by simp))]
    exact run_done _ _
  · exact fails_paramList ((ih p t ts k hat ht hk (by simp) (by simp)).2 hplain)

theorem parsesAt_params {ps : Phrase (knownAs e vars) .params} (ihps : ps.ParsesAt e vars)
    (iha : a.ParsesAt e vars) :
    (params ps a).ParsesAt e vars := by
  intro p t ts k hat ht hk _ _
  have htokens : (params ps a).tokens ++ t :: ts = ps.tokens ++ .comma :: (a.tokens ++ t :: ts) := by
    rw [tokens, append_assoc, cons_append]
  rw [htokens] at hat
  rw [nodes] at hk ⊢
  by_cases hempty : ps.tokens = []
  · refine ⟨fun hplain => absurd hempty hplain.1, fun _ => ?_⟩
    rw [hempty] at hat
    exact fails_paramList (fails_comma hat)
  obtain ⟨hgood, hbad⟩ := ihps p .comma _ k hat (by decide) (by omega) (by simp) (fun _ => hempty)
  by_cases hplain : ps.Plain
  · obtain ⟨p₁, hat₁, h₁⟩ := hgood hplain
    obtain ⟨p₂, hnext, hat₂, -⟩ := hat₁.next
    rw [proc] at h₁
    refine ⟨fun hplain' => ?_, fun hplain' => ?_⟩
    · obtain ⟨p₃, h₃, hat₃⟩ := iha.complete hat₂ ht ht (by omega) (by simp) (by simp) hplain'.2.2
      refine ⟨p₃, by rw [← Nat.add_assoc]; exact hat₃, ?_⟩
      rw [proc] at h₃
      rw [proc, h₁, continues, returns_paramLoop]
      simp only [procParamLoop, hnext, if_true, run, h₃, bind_some,
        if_neg (a.tree_ne_null (by simp))]
      exact run_done _ _
    · have ha : ¬ a.Plain := fun ha => hplain' ⟨hempty, hplain, ha⟩
      have hfails := (iha p₂ t ts _ hat₂ ht (by omega) (by simp) (by simp)).2 ha
      intro r hr
      rw [proc] at hfails
      rw [proc, h₁, continues, returns_paramLoop] at hr
      simp only [procParamLoop, hnext, if_true, run, bind_eq_some_iff] at hr
      obtain ⟨r₃, h₃, r₄, h₄, hdone⟩ := hr
      cases hdone
      refine errno_of_returns h₄ ?_
      split
      · exact errno_setError _ _
      · exact hfails r₃ h₃
  · exact ⟨fun hplain' => absurd hplain'.2.1 hplain, fun _ => hbad hplain⟩

/-- **What the functions of the parser return for the sentences of their nonterminals.** -/
theorem parses (ph : Phrase (knownAs e vars) n) : ph.ParsesAt e vars := by
  induction ph with
  | assignOf a ih => exact parsesAt_assignOf ih
  | assign u a ihu iha => exact parsesAt_assign ihu iha
  | binaryOf l a ih => exact parsesAt_binaryOf ih
  | binary l t op h a b iha ihb => exact parsesAt_binary iha ihb
  | castOf u ih => exact parsesAt_castOf ih
  | cast type c ih => exact parsesAt_cast ih
  | unaryOf a ih => exact parsesAt_unaryOf ih
  | plus c ih => exact parsesAt_plus ih
  | minus c ih => exact parsesAt_minus ih
  | unary t nodeType h c ih => exact parsesAt_unary ih
  | postOf a ih => exact parsesAt_postOf ih
  | inc a ih => exact parsesAt_inc ih
  | dec a ih => exact parsesAt_dec ih
  | call a ps iha ihps => exact parsesAt_call iha ihps
  | literal t d h => exact parsesAt_literal
  | paren a ih => exact parsesAt_paren
  | ident name s h => exact parsesAt_ident
  | noParams => exact parsesAt_noParams
  | param a ih => exact parsesAt_param ih
  | params ps a ihps iha => exact parsesAt_params ihps iha

end Phrase

/-! ### Lines -/

theorem exprStatement_eq (hnext : p.nextToken = (p', t)) (ht : t ≠ .semicolon) :
    returns e .exprStatement p = (returns e .assignExpr p'.replayToken).bind fun r =>
      some ((r.1.matchToken (· = .semicolon)).1, r.2) := by
  rw [returns_exprStatement]
  simp only [procExprStatement, hnext, ne_eq, if_pos ht]
  rfl

theorem run_eq (ht : t.starts = true) :
    returns e (.run t .null 0) p = (returns e .exprStatement p.replayToken).bind fun r =>
      if r.2 = .null then some (r.1, .null)
      else returns e (.run r.1.nextToken.2 r.2 0) r.1.nextToken.1 := by
  have heof : ¬ (t = .eof ∨ t = .bad) := by
    rintro (rfl | rfl)
    · cases ht
    · cases ht
  have hdecl : decide (t.baseType.isSome = true ∨ t = .unsigned) = false := by
    cases t <;> first | rfl | cases ht
  rw [returns_run]
  simp only [procRun, if_neg heof, hdecl, Bool.false_eq_true, if_false, if_true, run]
  congr 1
  funext r
  split
  · rfl
  · exact run_done _ _

theorem run_eof (h : At vars p [] k) (root : FinshTree) (pos : ℕ) :
    ∃ p', returns e (.run p.nextToken.2 root pos) p.nextToken.1 = some (p', root) ∧
      At vars p' [] k := by
  obtain ⟨p', hnext, hat⟩ := h.next_nil
  refine ⟨p', ?_, hat⟩
  rw [hnext, returns_run]
  simp only [procRun, true_or, if_true]
  rfl

/-- The line of an expression: its tokens and `;`. -/
def Phrase.line {n : Nonterminal} (ph : Phrase known n) : List Lexeme :=
  (ph.tokens ++ [FinshToken.semicolon]).map (⟨·, false⟩)

theorem returns_line (ph : Phrase (knownAs e vars) .assign) :
    ∃ p t p', (start vars ph.line).nextToken = (p, t) ∧ t.starts = true ∧
      At vars p' (ph.tokens ++ [FinshToken.semicolon]) 0 ∧
      returns e .exprStatement p.replayToken = (returns e .assignExpr p').bind fun r =>
        some ((r.1.matchToken (· = .semicolon)).1, r.2) := by
  obtain ⟨t, ts, htok, hstarts, -⟩ := ph.tokens_eq_cons (by simp)
  have hat : At vars (start vars ph.line) (t :: (ts ++ [FinshToken.semicolon])) 0 := by
    refine ⟨?_, rfl, rfl, rfl⟩
    rw [← cons_append, ← htok]
    rfl
  obtain ⟨p₁, hnext, -, hat₁⟩ := hat.next
  obtain ⟨p₂, hnext₂, -, hat₂⟩ := hat₁.next
  have hne : t ≠ .semicolon := by
    rintro rfl
    cases hstarts
  refine ⟨p₁, t, p₂.replayToken, hnext, hstarts, ?_, exprStatement_eq hnext₂ hne⟩
  rw [htok]
  exact hat₂

variable {ph : Phrase (knownAs e vars) .assign}

theorem accepts_of_plain (hnodes : ph.nodes ≤ finshNodeMax) (hplain : ph.Plain) :
    ∃ n p, finshParserRun e vars ph.line n = some (p, ph.tree) ∧ p.errno = none := by
  obtain ⟨p, t, p₁, hnext, hstarts, hat₁, hstatement⟩ := returns_line ph
  obtain ⟨p₂, h₂, hat₂⟩ := ph.parses.complete hat₁ (by decide) (by decide) (by omega) (by simp)
    (by simp) hplain
  obtain ⟨p₃, hmatch, hat₃⟩ := hat₂.matchToken (f := (· = .semicolon)) rfl
  obtain ⟨p₄, hrun, hat₄⟩ := run_eof hat₃ ph.tree 0
  have hreturns : returns e (.run t .null 0) p = some (p₄, ph.tree) := by
    rw [proc] at h₂
    rw [run_eq hstarts, hstatement, h₂]
    simp only [bind_some, hmatch, if_neg (ph.tree_ne_null (by simp))]
    exact hrun
  obtain ⟨n, hn⟩ := result_eq_some_iff.mp hreturns
  refine ⟨n, p₄, ?_, hat₄.errno⟩
  rw [finshParserRun, hnext]
  exact hn

theorem plain_of_accepts (hnodes : ph.nodes ≤ finshNodeMax)
    (h : ∃ n p, finshParserRun e vars ph.line n = some (p, ph.tree) ∧ p.errno = none) :
    ph.Plain := by
  obtain ⟨n, r, hn, herrno⟩ := h
  obtain ⟨p, t, p₁, hnext, hstarts, hat₁, hstatement⟩ := returns_line ph
  rw [finshParserRun, hnext] at hn
  by_contra hplain
  have hfails := (ph.parses p₁ .semicolon [] 0 hat₁ (by decide) (by omega) (by simp) (by simp)).2 hplain
  rw [proc] at hfails
  have hreturns : returns e (.run t .null 0) p = some (r, ph.tree) :=
    result_eq_some_iff.mpr ⟨n, hn⟩
  -- the error of the expression is kept to the end of the line
  rw [run_eq hstarts, hstatement, bind_eq_some_iff] at hreturns
  obtain ⟨r₃, h₃, hrest⟩ := hreturns
  obtain ⟨r₂, h₂, hr₃⟩ := bind_eq_some_iff.mp h₃
  cases hr₃
  have herrno₃ := errno_matchToken (f := (· = .semicolon)) (hfails r₂ h₂)
  split at hrest
  · obtain rfl := congrArg Prod.fst (some.inj hrest)
    exact herrno₃ herrno
  · exact errno_of_returns hrest (errno_nextToken herrno₃) herrno

/-- An `expr_unary` as an expression. -/
def Phrase.ofUnary (u : Phrase known .unary) : Phrase known .assign :=
  .assignOf (.binaryOf .inclusiveOr (.binaryOf .exclusiveOr (.binaryOf .and (.binaryOf .shift
    (.binaryOf .additive (.binaryOf .multiplicative (.castOf u)))))))

/-- `1` as an `expr_primary`. -/
def Phrase.one : Phrase known .primary := .literal (.valueInt 1) _ rfl

/-- No names are known. -/
def FinshNames.empty : FinshNames := ⟨fun _ => none, fun _ => none, fun _ => 0⟩

end RtThread
