import McCortexM3.Finsh.Compiler
import McCortexM3.Procedures

/-!
# The parser of finsh

The functions of `finsh_parser.c`, with `finsh_node.c` and the table of `finsh_var.c`.  The parser
reads the tokens of a line, as `finsh_token_token` returns them; a token may come with an error of
the tokenizer, and the token of a string with the address of the copy that `finsh_node_new_string`
makes.  A function that calls others is a computation of `Calls`; a node that is `NULL` is
`FinshTree.null`.

## Main definitions

* `FinshParser` — the state of the parser.
* `Proc`, `procBody` — the functions that are recursive, and their bodies.
* `finshParserRun` — the result for a line.
-/

set_option linter.all false

namespace RtThread

/-! ### Tokens -/

/-- An `enum finsh_token_type` with the value of the token. -/
inductive FinshToken
  | leftParen
  | rightParen
  | comma
  | semicolon
  | mul
  | add
  | inc
  | sub
  | dec
  | div
  | mod
  | assign
  | and
  | or
  | xor
  | bitwise
  | shl
  | shr
  | void
  | char
  | short
  | int
  | long
  | unsigned
  | valueChar (v : BitVec 32)
  | valueInt (v : BitVec 32)
  | valueLong (v : BitVec 32)
  | valueString (v : BitVec 32)
  | valueNull
  | identifier (name : List UInt8)
  | bad
  | eof
  deriving DecidableEq

/-- The errors of `finsh.h`; those of the tokenizer are one. -/
inductive FinshError
  | invalidToken
  | expectType
  | unknownType
  | variableExist
  | expectOperator
  | memoryFull
  | unknownSymbol
  | nullNode
  | token
  deriving DecidableEq

/-- A token, and whether the tokenizer sets an error when it reads it. -/
structure Lexeme where
  token : FinshToken
  error : Bool

/-- The names that are no variables of finsh, and the addresses of these by their place in
`global_variable`. -/
structure FinshNames where
  sysvar : List UInt8 → Option FinshSymbol
  syscall : List UInt8 → Option FinshSymbol
  varAddress : ℕ → BitVec 32

/-- The state of the parser: what is behind the current token in the line, the current token and
whether it is replayed, `global_variable`, the number of the nodes of `global_node_table` that are
used, and `global_errno`. -/
structure FinshParser where
  rest : List Lexeme
  current : FinshToken
  replay : Bool
  vars : List (List UInt8 × FinshType)
  nodes : ℕ
  errno : Option FinshError

/-- `is_base_type`. -/
def FinshToken.baseType : FinshToken → Option FinshType
  | .void => some .void
  | .char => some .char
  | .short => some .short
  | .int => some .int
  | .long => some .long
  | _ => none

/-- The type of `unsigned` and a base type; there is none for `void`. -/
def FinshToken.unsignedType : FinshToken → Option FinshType
  | .char => some .uchar
  | .short => some .ushort
  | .int => some .uint
  | .long => some .ulong
  | _ => none

/-- The type of a pointer. -/
def FinshType.pointer : FinshType → FinshType
  | .void => .voidp
  | .char | .uchar => .charp
  | .short | .ushort => .shortp
  | .int | .uint => .intp
  | .long | .ulong => .longp
  | _ => .voidp

/-- The number of an `enum finsh_type`. -/
def FinshType.toNat : FinshType → ℕ
  | .unknown => 0
  | .void => 1
  | .voidp => 2
  | .char => 3
  | .uchar => 4
  | .charp => 5
  | .short => 6
  | .ushort => 7
  | .shortp => 8
  | .int => 9
  | .uint => 10
  | .intp => 11
  | .long => 12
  | .ulong => 13
  | .longp => 14

/-! ### Nodes -/

namespace FinshTree

/-- `finsh_node_sibling` of a node is set. -/
def setSibling : FinshTree → FinshTree → FinshTree
  | .null, _ => .null
  | .node d child _, t => .node d child t

/-- The sibling of the node that is `pos` siblings behind this one is set. -/
def setSiblingAt : ℕ → FinshTree → FinshTree → FinshTree
  | _, .null, _ => .null
  | 0, .node d child _, t => .node d child t
  | pos + 1, .node d child sibling, t => .node d child (sibling.setSiblingAt pos t)

/-- The last sibling gets a sibling. -/
def append : FinshTree → FinshTree → FinshTree
  | .null, t => t
  | .node d child sibling, t => .node d child (sibling.append t)

/-- The `data_type` of a node is set. -/
def setDataType : FinshTree → ℕ → FinshTree
  | .null, _ => .null
  | .node d child sibling, n => .node { d with dataType := n } child sibling

end FinshTree

namespace FinshParser

/-- `finsh_error_set`. -/
def setError (p : FinshParser) (e : FinshError) : FinshParser := { p with errno := some e }

/-- `finsh_token_replay`. -/
def replayToken (p : FinshParser) : FinshParser := { p with replay := true }

/-- `finsh_token_token`. -/
def nextToken (p : FinshParser) : FinshParser × FinshToken :=
  if p.replay = true then ({ p with replay := false }, p.current)
  else
    match p.rest with
    | [] => ({ p with current := .eof }, .eof)
    | l :: ls =>
      ({ p with
          rest := ls
          current := l.token
          errno := if l.error = true then some .token else p.errno }, l.token)

/-- `check_token`. -/
def checkToken (p : FinshParser) (token : FinshToken) (ok : FinshToken → Bool) : FinshParser :=
  if ok token = true then p else (p.setError .invalidToken).replayToken

/-- `match_token`. -/
def matchToken (p : FinshParser) (ok : FinshToken → Bool) : FinshParser × FinshToken :=
  (p.nextToken.1.checkToken p.nextToken.2 ok, p.nextToken.2)

/-- `finsh_node_allocate`, with the fields that are set behind it. -/
def allocate (p : FinshParser) (d : FinshNode) : FinshParser × FinshTree :=
  if p.nodes < finshNodeMax then ({ p with nodes := p.nodes + 1 }, .node d .null .null)
  else (p, .null)

/-- `finsh_node_new_char`, `finsh_node_new_int`, `finsh_node_new_long`, `finsh_node_new_string` and
`finsh_node_new_ptr`, and the end of `finsh_node_new_id`. -/
def newNode (p : FinshParser) (d : FinshNode) : FinshParser × FinshTree :=
  let (p, node) := p.allocate d
  if node = .null then (p.setError .memoryFull, .null) else (p, node)

/-- `finsh_var_lookup`, as the place in `global_variable`. -/
def varLookup (p : FinshParser) (name : List UInt8) : Option ℕ :=
  p.vars.findIdx? fun v => v.1 = name

/-- `finsh_var_insert`. -/
def varInsert (p : FinshParser) (name : List UInt8) (type : FinshType) : FinshParser :=
  if (p.varLookup name).isSome then p.setError .variableExist
  else
    match p.vars.findIdx? fun v => v.2 = .unknown with
    | none => p.setError .variableExist
    | some i => { p with vars := p.vars.set i (name, type) }

/-- What an identifier is known as. -/
def lookup (e : FinshNames) (p : FinshParser) (name : List UInt8) : Option FinshSymbol :=
  match p.varLookup name with
  | some i => some ⟨.var, (p.vars.getD i ([], .unknown)).2, e.varAddress i, e.varAddress i⟩
  | none =>
    match e.sysvar name with
    | some s => some s
    | none => e.syscall name

/-- `finsh_node_new_id`. -/
def newId (e : FinshNames) (p : FinshParser) (name : List UInt8) : FinshParser × FinshTree :=
  match p.lookup e name with
  | some s => p.newNode (.ident s)
  | none => (p.setError .unknownSymbol, .null)

/-- `make_sys_node`. -/
def makeSysNode (p : FinshParser) (nodeType : NodeType) (node₁ node₂ : FinshTree) :
    FinshParser × FinshTree :=
  let (p, node) := p.allocate (.sys nodeType)
  match node₁, node with
  | .node .., .node d _ sibling => (p, .node d (node₁.setSibling node₂) sibling)
  | _, _ => (p.setError .nullNode, node)

/-- The end of `proc_type`: a pointer, or not. -/
def typePointer (p : FinshParser) (type : FinshType) : FinshParser × FinshType :=
  let (p, token) := p.nextToken
  if token = .mul then (p, type.pointer) else (p.replayToken, type)

/-- `proc_type`. -/
def procType (p : FinshParser) : FinshParser × FinshType :=
  let (p, token) := p.nextToken
  match token.baseType with
  | some type => p.typePointer type
  | none =>
    if token = .unsigned then
      let (p, token) := p.nextToken
      if token.baseType.isSome then
        match token.unsignedType with
        | some type => p.typePointer type
        | none => (p.replayToken.setError .unknownType, .unknown)
      else (p.replayToken.setError .expectType).typePointer .unknown
    else (p.replayToken.setError .unknownType, .unknown)

/-- Whether a token is an identifier. -/
def isIdentifier : FinshToken → Bool
  | .identifier _ => true
  | _ => false

/-- `proc_identifier`. -/
def procIdentifier (p : FinshParser) : FinshParser × List UInt8 :=
  let (p, token) := p.matchToken isIdentifier
  match token with
  | .identifier name => (p, name)
  | _ => (p, [])

end FinshParser

/-! ### Functions -/

/-- The levels of the operations with two operands, the loosest first. -/
inductive BinLevel
  | inclusiveOr
  | exclusiveOr
  | and
  | shift
  | additive
  | multiplicative
  deriving DecidableEq

/-- The functions of the parser and their loops, with what they have built so far. -/
inductive Proc
  | assignExpr
  | binary (l : BinLevel)
  | binaryLoop (l : BinLevel) (node : FinshTree)
  | castExpr
  | unaryExpr
  | postfixExpr
  | postfixLoop (node : FinshTree)
  | primaryExpr
  | paramList
  | paramLoop (node : FinshTree)
  | exprStatement
  | variableDecl
  | declLoop (type : FinshType) (token : FinshToken) (node : FinshTree)
  | run (token : FinshToken) (root : FinshTree) (pos : ℕ)

/-- Computations that call the functions of the parser. -/
abbrev ParserCalls := Calls (Proc × FinshParser) (FinshParser × FinshTree)

/-- The function of the operands of a level. -/
def BinLevel.operand : BinLevel → Proc
  | .inclusiveOr => .binary .exclusiveOr
  | .exclusiveOr => .binary .and
  | .and => .binary .shift
  | .shift => .binary .additive
  | .additive => .binary .multiplicative
  | .multiplicative => .castExpr

/-- The operations of a level. -/
def BinLevel.op : BinLevel → FinshToken → Option BinOp
  | .inclusiveOr, .or => some .or
  | .exclusiveOr, .xor => some .xor
  | .and, .and => some .and
  | .shift, .shl => some .shl
  | .shift, .shr => some .shr
  | .additive, .sub => some .sub
  | .additive, .add => some .add
  | .multiplicative, .mul => some .mul
  | .multiplicative, .div => some .div
  | .multiplicative, .mod => some .mod
  | _, _ => none

namespace FinshParser

open Calls

/-- What returns a state and a node. -/
def done (r : FinshParser × FinshTree) : ParserCalls := .ret r

/-- `proc_assign_expr`, and so `proc_expr`. -/
def procAssignExpr (p : FinshParser) : ParserCalls :=
  .call (.binary .inclusiveOr, p) fun (p, or) =>
    let (p, token) := p.nextToken
    if token = .assign then
      .call (.assignExpr, p) fun (p, assign) => done (p.makeSysNode .sysAssign or assign)
    else done (p.replayToken, or)

/-- `proc_inclusive_or_expr`, `proc_exclusive_or_expr`, `proc_and_expr`, `proc_shift_expr`,
`proc_additive_expr` and `proc_multiplicative_expr`. -/
def procBinary (l : BinLevel) (p : FinshParser) : ParserCalls :=
  .call (l.operand, p) fun (p, node) => .call (.binaryLoop l node, p) done

/-- Their loops. -/
def procBinaryLoop (l : BinLevel) (node : FinshTree) (p : FinshParser) : ParserCalls :=
  let (p, token) := p.nextToken
  match l.op token with
  | some op =>
    .call (l.operand, p) fun (p, node') =>
      if node' = .null then .call (.binaryLoop l node, p.setError .expectOperator) done
      else
        let (p, node) := p.makeSysNode op.nodeType node node'
        .call (.binaryLoop l node, p) done
  | none => done (p.replayToken, node)

/-- `proc_cast_expr`. -/
def procCastExpr (p : FinshParser) : ParserCalls :=
  let (p, token) := p.nextToken
  if token = .leftParen then
    let (p, type) := p.procType
    let (p, _) := p.matchToken (· = .rightParen)
    .call (.castExpr, p) fun (p, cast) =>
      if cast ≠ .null then done (p, cast.setDataType type.toNat)
      else .call (.unaryExpr, p.replayToken) done
  else .call (.unaryExpr, p.replayToken) done

/-- The operators of `proc_unary_expr` that make a node of one operand. -/
def unaryNode : FinshToken → Option NodeType
  | .inc => some .sysPreinc
  | .dec => some .sysPredec
  | .bitwise => some .sysBitwise
  | .mul => some .sysGetvalue
  | .and => some .sysGetaddr
  | _ => none

/-- `proc_unary_expr`. -/
def procUnaryExpr (p : FinshParser) : ParserCalls :=
  let (p, token) := p.nextToken
  if token = .add then .call (.castExpr, p) done
  else if token = .sub then
    .call (.castExpr, p) fun (p, cast) =>
      -- the arguments of the call, of which the constant is made behind the operand
      let (p, zero) := p.newNode (.const .valueLong 0)
      done (p.makeSysNode .sysSub zero cast)
  else
    match unaryNode token with
    | some nodeType => .call (.castExpr, p) fun (p, cast) => done (p.makeSysNode nodeType cast .null)
    | none => .call (.postfixExpr, p.replayToken) done

/-- `proc_postfix_expr`. -/
def procPostfixExpr (p : FinshParser) : ParserCalls :=
  .call (.primaryExpr, p) fun (p, node) => .call (.postfixLoop node, p) done

/-- The loop of `proc_postfix_expr`. -/
def procPostfixLoop (node : FinshTree) (p : FinshParser) : ParserCalls :=
  let (p, token) := p.nextToken
  if token = .inc then
    let (p, node) := p.makeSysNode .sysInc node .null
    .call (.postfixLoop node, p) done
  else if token = .dec then
    let (p, node) := p.makeSysNode .sysDec node .null
    .call (.postfixLoop node, p) done
  else if token = .leftParen then
    let (p, token) := p.nextToken
    if token ≠ .rightParen then
      .call (.paramList, p.replayToken) fun (p, params) =>
        let (p, _) := p.matchToken (· = .rightParen)
        let (p, node) := p.makeSysNode .sysFunc node params
        .call (.postfixLoop node, p) done
    else
      let (p, node) := p.makeSysNode .sysFunc node .null
      .call (.postfixLoop node, p) done
  else done (p.replayToken, node)

/-- `proc_primary_expr`. -/
def procPrimaryExpr (e : FinshNames) (p : FinshParser) : ParserCalls :=
  let (p, token) := p.nextToken
  match token with
  | .identifier _ =>
    let (p, id) := p.replayToken.procIdentifier
    done (p.newId e id)
  | .leftParen =>
    .call (.assignExpr, p) fun (p, expr) =>
      let (p, _) := p.matchToken (· = .rightParen)
      done (p, expr)
  | .valueInt v => done (p.newNode (.const .valueInt v))
  | .valueLong v => done (p.newNode (.const .valueLong v))
  | .valueChar v => done (p.newNode (.const .valueChar v))
  | .valueString v => done (p.newNode (.const .valueString v))
  | .valueNull => done (p.newNode (.const .valueNull 0))
  | _ => done (p.setError .invalidToken, .null)

/-- `proc_param_list`. -/
def procParamList (p : FinshParser) : ParserCalls :=
  .call (.assignExpr, p) fun (p, assign) =>
    if assign = .null then done (p, .null) else .call (.paramLoop assign, p) done

/-- The loop of `proc_param_list`. -/
def procParamLoop (node : FinshTree) (p : FinshParser) : ParserCalls :=
  let (p, token) := p.nextToken
  if token = .comma then
    .call (.assignExpr, p) fun (p, assign) =>
      let p := if assign = .null then p.setError .expectOperator else p
      .call (.paramLoop (node.append assign), p) done
  else done (p.replayToken, node)

/-- `proc_expr_statement`. -/
def procExprStatement (p : FinshParser) : ParserCalls :=
  let (p, token) := p.nextToken
  if token ≠ .semicolon then
    .call (.assignExpr, p.replayToken) fun (p, expr) =>
      let (p, _) := p.matchToken (· = .semicolon)
      done (p, expr)
  else done (p, .null)

/-- `proc_variable_decl`. -/
def procVariableDecl (e : FinshNames) (p : FinshParser) : ParserCalls :=
  let (p, type) := p.procType
  let (p, id) := p.procIdentifier
  let p := p.varInsert id type
  let (p, token) := p.nextToken
  if token = .comma then .call (.declLoop type token .null, p) done
  else if token = .assign then
    .call (.assignExpr, p) fun (p, assign) =>
      if assign ≠ .null then
        let (p, idnode) := p.newId e id
        let (p, node) := p.makeSysNode .sysAssign idnode assign
        let (p, token) := p.nextToken
        .call (.declLoop type token node, p) done
      else .call (.declLoop type token .null, p) done
  else if token = .semicolon then done (p, .null)
  else done (p.setError .expectType, .null)

/-- The loops of `proc_variable_decl`, and what is behind them. -/
def procDeclLoop (e : FinshNames) (type : FinshType) (token : FinshToken) (node : FinshTree)
    (p : FinshParser) : ParserCalls :=
  if token = .comma then
    let (p, id) := p.procIdentifier
    let p := p.varInsert id type
    let (p, token) := p.nextToken
    if token = .assign then
      .call (.assignExpr, p) fun (p, assign) =>
        if assign ≠ .null then
          let (p, idnode) := p.newId e id
          let (p, node') := p.makeSysNode .sysAssign idnode assign
          let (p, token) := p.nextToken
          .call (.declLoop type token (node.append node'), p) done
        else .call (.declLoop type token node, p) done
    else .call (.declLoop type token node, p) done
  else done (p.checkToken token (· = .semicolon), node)

/-- The loop of `finsh_parser_run`: the first node, and how many siblings the last one is behind
it. -/
def procRun (token : FinshToken) (root : FinshTree) (pos : ℕ) (p : FinshParser) : ParserCalls :=
  if token = .eof ∨ token = .bad then done (p, root)
  else
    let decl : Bool := token.baseType.isSome ∨ token = .unsigned
    .call (if decl = true then .variableDecl else .exprStatement, p.replayToken) fun (p, node) =>
      if root = .null then
        if node = .null then done (p, .null)
        else .call (.run p.nextToken.2 node 0, p.nextToken.1) done
      else
        let root := root.setSiblingAt pos node
        let pos := if node = .null then pos else pos + 1
        let p := if node = .null ∧ decl = false ∧ isIdentifier token = false then p.nextToken.1 else p
        .call (.run p.nextToken.2 root pos, p.nextToken.1) done

/-- The body of a function. -/
def procBody (e : FinshNames) : Proc × FinshParser → ParserCalls
  | (.assignExpr, p) => p.procAssignExpr
  | (.binary l, p) => p.procBinary l
  | (.binaryLoop l node, p) => p.procBinaryLoop l node
  | (.castExpr, p) => p.procCastExpr
  | (.unaryExpr, p) => p.procUnaryExpr
  | (.postfixExpr, p) => p.procPostfixExpr
  | (.postfixLoop node, p) => p.procPostfixLoop node
  | (.primaryExpr, p) => p.procPrimaryExpr e
  | (.paramList, p) => p.procParamList
  | (.paramLoop node, p) => p.procParamLoop node
  | (.exprStatement, p) => p.procExprStatement
  | (.variableDecl, p) => p.procVariableDecl e
  | (.declLoop type token node, p) => p.procDeclLoop e type token node
  | (.run token root pos, p) => p.procRun token root pos

/-- A function of the parser with fuel. -/
def parse (e : FinshNames) : ℕ → Proc × FinshParser → Option (FinshParser × FinshTree) :=
  eval (procBody e)

/-- The parser before a line, as `finsh_flush` leaves it. -/
def start (vars : List (List UInt8 × FinshType)) (line : List Lexeme) : FinshParser :=
  ⟨line, .eof, false, vars, 0, none⟩

end FinshParser

/-- `finsh_parser_run` on a line, with fuel: the parser behind it, and the first node. -/
def finshParserRun (e : FinshNames) (vars : List (List UInt8 × FinshType)) (line : List Lexeme)
    (n : ℕ) : Option (FinshParser × FinshTree) :=
  let (p, token) := (FinshParser.start vars line).nextToken
  FinshParser.parse e n (.run token .null 0, p)

end RtThread
