import McCortexM3.Finsh.ParserState

/-!
# The grammar of finsh expressions

The productions that `finsh_parser.c` documents at its functions, with their tokens and the trees
that C gives them.  A type may also be `long`, and a pointer, as `proc_type` has it.

## Main definitions

* `Phrase known n` — the derivations from the nonterminal `n`, over the identifiers that are known.
* `Phrase.tokens`, `Phrase.tree` — the sentence of a derivation, and its tree.
* `Phrase.Plain` — no parentheses but those of casts and calls.
-/

set_option linter.all false

namespace RtThread

/-! ### Productions -/

/-- The nonterminals: `expr_assign`, those of the operations with two operands, `expr_cast`,
`expr_unary`, `expr_postfix`, `expr_primary` and `param_list`. -/
inductive Nonterminal
  | assign
  | binary (l : BinLevel)
  | cast
  | unary
  | post
  | primary
  | params
  deriving DecidableEq

/-- The nonterminal of the operands of a level. -/
def BinLevel.next : BinLevel → Nonterminal
  | .inclusiveOr => .binary .exclusiveOr
  | .exclusiveOr => .binary .and
  | .and => .binary .shift
  | .shift => .binary .additive
  | .additive => .binary .multiplicative
  | .multiplicative => .cast

/-- The name of a type. -/
structure TypeName where
  unsigned : Bool
  base : FinshToken
  isBase : base.baseType.isSome = true
  pointer : Bool

/-- The node of a constant. -/
def FinshToken.literal : FinshToken → Option FinshNode
  | .valueInt v => some (.const .valueInt v)
  | .valueLong v => some (.const .valueLong v)
  | .valueChar v => some (.const .valueChar v)
  | .valueString v => some (.const .valueString v)
  | .valueNull => some (.const .valueNull 0)
  | _ => none

/-- The derivations of the grammar. -/
inductive Phrase (known : List UInt8 → Option FinshSymbol) : Nonterminal → Type
  | assignOf (a : Phrase known (.binary .inclusiveOr)) : Phrase known .assign
  | assign (u : Phrase known .unary) (a : Phrase known .assign) : Phrase known .assign
  | binaryOf (l : BinLevel) (a : Phrase known l.next) : Phrase known (.binary l)
  | binary (l : BinLevel) (t : FinshToken) (op : BinOp) (h : l.op t = some op)
      (a : Phrase known (.binary l)) (b : Phrase known l.next) : Phrase known (.binary l)
  | castOf (u : Phrase known .unary) : Phrase known .cast
  | cast (type : TypeName) (c : Phrase known .cast) : Phrase known .cast
  | unaryOf (a : Phrase known .post) : Phrase known .unary
  | plus (c : Phrase known .cast) : Phrase known .unary
  | minus (c : Phrase known .cast) : Phrase known .unary
  | unary (t : FinshToken) (nodeType : NodeType) (h : FinshParser.unaryNode t = some nodeType)
      (c : Phrase known .cast) : Phrase known .unary
  | postOf (a : Phrase known .primary) : Phrase known .post
  | inc (a : Phrase known .post) : Phrase known .post
  | dec (a : Phrase known .post) : Phrase known .post
  | call (a : Phrase known .post) (ps : Phrase known .params) : Phrase known .post
  | literal (t : FinshToken) (d : FinshNode) (h : t.literal = some d) : Phrase known .primary
  | paren (a : Phrase known .assign) : Phrase known .primary
  | ident (name : List UInt8) (s : FinshSymbol) (h : known name = some s) : Phrase known .primary
  | noParams : Phrase known .params
  | param (a : Phrase known .assign) : Phrase known .params
  | params (ps : Phrase known .params) (a : Phrase known .assign) : Phrase known .params

/-! ### Sentences and trees -/

namespace TypeName

/-- The tokens of the name of a type. -/
def tokens (n : TypeName) : List FinshToken :=
  (if n.unsigned = true then [FinshToken.unsigned] else []) ++ n.base ::
    (if n.pointer = true then [.mul] else [])

/-- The type without `*`, for a name that has one. -/
def baseType (n : TypeName) : Option FinshType :=
  if n.unsigned = true then n.base.unsignedType else n.base.baseType

/-- The type. -/
def type (n : TypeName) : FinshType :=
  let type := n.baseType.getD .void
  if n.pointer = true then type.pointer else type

end TypeName

namespace Phrase

variable {known : List UInt8 → Option FinshSymbol} {n : Nonterminal}

/-- The sentence of a derivation. -/
@[simp] def tokens {n : Nonterminal} : Phrase known n → List FinshToken
  | .assignOf a => a.tokens
  | .assign u a => u.tokens ++ .assign :: a.tokens
  | .binaryOf _ a => a.tokens
  | .binary _ t _ _ a b => a.tokens ++ t :: b.tokens
  | .castOf u => u.tokens
  | .cast type c => .leftParen :: type.tokens ++ .rightParen :: c.tokens
  | .unaryOf a => a.tokens
  | .plus c => .add :: c.tokens
  | .minus c => .sub :: c.tokens
  | .unary t _ _ c => t :: c.tokens
  | .postOf a => a.tokens
  | .inc a => a.tokens ++ [.inc]
  | .dec a => a.tokens ++ [.dec]
  | .call a ps => a.tokens ++ .leftParen :: ps.tokens ++ [.rightParen]
  | .literal t _ _ => [t]
  | .paren a => .leftParen :: a.tokens ++ [.rightParen]
  | .ident name _ _ => [.identifier name]
  | .noParams => []
  | .param a => a.tokens
  | .params ps a => ps.tokens ++ .comma :: a.tokens

/-- The tree of a derivation; that of a list of parameters is a chain of siblings. -/
@[simp] def tree {n : Nonterminal} : Phrase known n → FinshTree
  | .assignOf a => a.tree
  | .assign u a => .sys .sysAssign u.tree a.tree
  | .binaryOf _ a => a.tree
  | .binary _ _ op _ a b => .sys op.nodeType a.tree b.tree
  | .castOf u => u.tree
  | .cast type c => c.tree.setDataType type.type.toNat
  | .unaryOf a => a.tree
  | .plus c => c.tree
  | .minus c => .sys .sysSub (.node (.const .valueLong 0) .null .null) c.tree
  | .unary _ nodeType _ c => .sys nodeType c.tree .null
  | .postOf a => a.tree
  | .inc a => .sys .sysInc a.tree .null
  | .dec a => .sys .sysDec a.tree .null
  | .call a ps => .sys .sysFunc a.tree ps.tree
  | .literal _ d _ => .node d .null .null
  | .paren a => a.tree
  | .ident _ s _ => .node (.ident s) .null .null
  | .noParams => .null
  | .param a => a.tree
  | .params ps a => ps.tree.append a.tree

/-- The number of nodes. -/
@[simp] def nodes {n : Nonterminal} : Phrase known n → ℕ
  | .assignOf a | .binaryOf _ a | .castOf a | .cast _ a | .unaryOf a | .plus a | .postOf a
  | .paren a | .param a => a.nodes
  | .assign a b | .binary _ _ _ _ a b | .call a b => a.nodes + b.nodes + 1
  | .minus a => a.nodes + 2
  | .unary _ _ _ a | .inc a | .dec a => a.nodes + 1
  | .literal .. | .ident .. => 1
  | .noParams => 0
  | .params a b => a.nodes + b.nodes

/-- There are no parentheses around an expression, no `unsigned void`, and no list of parameters
begins with a comma. -/
@[simp] def Plain {n : Nonterminal} : Phrase known n → Prop
  | .assignOf a | .binaryOf _ a | .castOf a | .unaryOf a | .plus a | .postOf a | .param a
  | .minus a | .unary _ _ _ a | .inc a | .dec a => a.Plain
  | .assign a b | .binary _ _ _ _ a b | .call a b => a.Plain ∧ b.Plain
  | .cast type a => type.baseType.isSome = true ∧ a.Plain
  | .literal .. | .ident .. | .noParams => True
  | .paren _ => False
  | .params a b => a.tokens ≠ [] ∧ a.Plain ∧ b.Plain

end Phrase

end RtThread
