import FluxOs.Fluxc.Parser

/-!
# The parsing of expressions

`src/fluxc/parser.c`: `parse_primary`, `parse_unary` and `parse_expression`.  A production keeps a pointer to the
text of its token, asks for the next token and then reads the text: what it reads is the text of the token that the
parser stands at then.
-/

namespace FluxOs

/-! ## Nodes of expressions -/

/-- The pointer to an `ast_node_t` of an expression, with the nodes below it; the pointer may be `NULL`.  The value of
a float literal is what `strtod` makes of the text. -/
inductive ExprNode
  | null
  | int (ival : Int64)
  | float (text : List UInt8)
  | string (codeText : List UInt8)
  | bool (bval : Bool)
  | void
  | ident (name : List UInt8)
  | binary (opStr : List UInt8) (left right : ExprNode)
  | unary (unaryOp : List UInt8) (operand : ExprNode)
  deriving DecidableEq, Repr

def isSpace (c : UInt8) : Bool := (bytes " \t\n\r").contains c || c = 11 || c = 12

/-- `strtoll(text, NULL, 0)`, where a number out of range is the nearest one in range. -/
def strtoll (text : List UInt8) : Int64 :=
  match text.dropWhile isSpace with
  | 45 :: digits => Int64.ofInt (-(min (literalValue digits) (2 ^ 63) : Nat))
  | 43 :: digits => Int64.ofNat (strtol digits)
  | digits => Int64.ofNat (strtol digits)

/-- `strchr(text, '.') || strchr(text, 'e') || strchr(text, 'E')` -/
def looksFloat (text : List UInt8) : Bool := text.any fun c => (bytes ".eE").contains c

/-- The text without its first and its last byte. -/
def stripQuotes (text : List UInt8) : List UInt8 := (text.drop 1).dropLast

def getPrecedence (op : List UInt8) : Nat :=
  if op = bytes "||" then 1
  else if op = bytes "&&" then 2
  else if op = bytes "|" then 3
  else if op = bytes "^" then 4
  else if op = bytes "&" then 5
  else if (["==", "!="].map bytes).contains op then 6
  else if (["<", ">", "<=", ">="].map bytes).contains op then 7
  else if (["+", "-"].map bytes).contains op then 8
  else if (["*", "/", "%"].map bytes).contains op then 9
  else 0

def isPrefixOperator (op : List UInt8) : Bool := (["-", "!", "~", "*", "&"].map bytes).contains op

namespace FluxParser

variable {L : Type} (p : FluxParser L)

/-- A new node, or `NULL` when the pool is used up. -/
def exprAlloc (node : ExprNode) : ExprNode × FluxParser L :=
  if p.pool < astPoolSize then (node, { p with pool := p.pool + 1 }) else (.null, p)

def astMakeLiteralInt (val : Int64) : ExprNode × FluxParser L := p.exprAlloc (.int val)

def astMakeLiteralFloat (text : List UInt8) : ExprNode × FluxParser L := p.exprAlloc (.float text)

def astMakeLiteralString (val : List UInt8) : ExprNode × FluxParser L :=
  p.exprAlloc (.string (printed astTextMax val))

def astMakeLiteralBool (val : Bool) : ExprNode × FluxParser L := p.exprAlloc (.bool val)

def astMakeLiteralVoid : ExprNode × FluxParser L := p.exprAlloc .void

def astMakeIdent (name : List UInt8) : ExprNode × FluxParser L := p.exprAlloc (.ident (printed astNameMax name))

def astMakeBinaryOp (op : List UInt8) (left right : ExprNode) : ExprNode × FluxParser L :=
  p.exprAlloc (.binary (printed 16 op) left right)

def astMakeUnaryOp (op : List UInt8) (operand : ExprNode) : ExprNode × FluxParser L :=
  p.exprAlloc (.unary (printed 4 op) operand)

/-! ## Productions -/

def parserError : FluxParser L :=
  if p.numErrors < p.maxErrors then { p with numErrors := p.numErrors + 1 } else p

/-- `parser_match`, whose result is not used here. -/
def parserMatch (type : TokenType) : Except ParseFault (FluxParser L) :=
  if p.parserCheck type then p.parserNext else pure p

/-- `case TOK_NUMBER` -/
def primaryNumber : Except ParseFault (ExprNode × FluxParser L) := do
  let p ← p.parserNext
  if looksFloat p.parserPeekText then pure (p.astMakeLiteralFloat p.parserPeekText)
  else pure (p.astMakeLiteralInt (strtoll p.parserPeekText))

/-- `case TOK_STRING` -/
def primaryString : Except ParseFault (ExprNode × FluxParser L) := do
  let p ← p.parserNext
  pure (p.astMakeLiteralString (stripQuotes p.parserPeekText))

/-- `case TOK_IDENTIFIER` and `case TOK_TYPE` -/
def primaryIdent : Except ParseFault (ExprNode × FluxParser L) := do
  let p ← p.parserNext
  pure (p.astMakeIdent p.parserPeekText)

/-- `case TOK_KEYWORD` -/
def primaryKeyword : Except ParseFault (ExprNode × FluxParser L) :=
  let text := p.parserPeekText
  if text = bytes "true" then (·.astMakeLiteralBool true) <$> p.parserNext
  else if text = bytes "false" then (·.astMakeLiteralBool false) <$> p.parserNext
  else if text = bytes "nil" ∨ text = bytes "null" then astMakeLiteralVoid <$> p.parserNext
  else p.primaryIdent

mutual

/-- `parse_primary`; the functions here call each other at most `fuel` times deep. -/
def parsePrimary (fuel : Nat) (p : FluxParser L) : Except ParseFault (ExprNode × FluxParser L) :=
  match fuel with
  | 0 => throw .diverged
  | fuel + 1 =>
    match p.parserPeekType with
    | .NUMBER => p.primaryNumber
    | .STRING => p.primaryString
    | .KEYWORD => p.primaryKeyword
    | .IDENTIFIER => p.primaryIdent
    | .TYPE => p.primaryIdent
    | .PUNCTUATION =>
      if p.parserPeekText.head? = some '('.toUInt8 then do
        let p ← p.parserNext
        let (expr, p) ← parseExpression fuel p
        let p ← p.parserMatch .PUNCTUATION
        pure (expr, p)
      else pure (.null, p.parserError)
    | _ => pure (.null, p.parserError)

def parseUnary (fuel : Nat) (p : FluxParser L) : Except ParseFault (ExprNode × FluxParser L) :=
  match fuel with
  | 0 => throw .diverged
  | fuel + 1 =>
    if p.parserCheck .OPERATOR ∧ isPrefixOperator p.parserPeekText then do
      let p ← p.parserNext
      let (operand, p) ← parseUnary fuel p
      pure (p.astMakeUnaryOp p.parserPeekText operand)
    else parsePrimary fuel p

/-- The loop of `parse_expression`. -/
def parseOperators (fuel : Nat) (left : ExprNode) (p : FluxParser L) :
    Except ParseFault (ExprNode × FluxParser L) :=
  match fuel with
  | 0 => throw .diverged
  | fuel + 1 =>
    if p.parserCheck .OPERATOR ∧ getPrecedence p.parserPeekText ≠ 0 then do
      let p ← p.parserNext
      let (right, p) ← parseUnary fuel p
      if right = .null then pure (left, p)
      else
        let (left, p) := p.astMakeBinaryOp p.parserPeekText left right
        parseOperators fuel left p
    else pure (left, p)

def parseExpression (fuel : Nat) (p : FluxParser L) : Except ParseFault (ExprNode × FluxParser L) :=
  match fuel with
  | 0 => throw .diverged
  | fuel + 1 => do
    let (left, p) ← parseUnary fuel p
    if left = .null then pure (.null, p) else parseOperators fuel left p

end

end FluxParser

end FluxOs
