import FluxOs.Fluxc.Scanners
import Mathlib.Data.List.DropRight

/-!
# The FLUX.MD parser

`src/fluxc/parser.c`: the syntax tree, the parser state and the parsing of the sections of a document.
The token buffer is a pointer that may be `NULL`, here an option.  A function that keeps a pointer to the
text of the token and then asks for the next token reads the text of the latter, as the buffer is the
same.
-/

namespace FluxOs

/-! ## Strings -/

/-- The bytes in front of the terminating `'\0'`. -/
def cString (text : List UInt8) : List UInt8 := text.takeWhile (· ≠ 0)

/-- The part of `s` from the first occurrence of `pattern`. -/
def strstr (s pattern : List UInt8) : Option (List UInt8) := s.tails.find? pattern.isPrefixOf

/-- `strtok` with the delimiter `','`. -/
def commaSeparated (s : List UInt8) : List (List UInt8) :=
  (s.splitOn ','.toUInt8).filter fun part => !part.isEmpty

def isTrimmed (c : UInt8) : Bool := (bytes " \t\n\r").contains c

def strTrim (s : List UInt8) (maxLen : Nat) : List UInt8 :=
  ((s.dropWhile isTrimmed).rdropWhile isTrimmed).take (maxLen - 1)

/-! ## The syntax tree -/

inductive AstNodeType
  | MODULE
  | FUNCTION
  | BLOCK
  | ASSIGNMENT
  | BINARY_OP
  | UNARY_OP
  | CALL
  | RETURN
  | IF
  | LOOP
  | AGENT_OP
  | TILE
  | REGION
  | IMPORT
  | EXPORT
  | LITERAL
  | IDENTIFIER
  | META
  | CODE_INJECTION
  | PARAM
  | FIELD_ACCESS
  | INDEX_ACCESS
  | STRUCT_DEF
  | ENUM_DEF
  | TYPE_DECL
  | CAST_EXPR
  | SIZEOF_EXPR
  | MATCH_EXPR
  | SPAWN_EXPR
  deriving DecidableEq, Repr

def astMaxChildren : Nat := 64
def astNameMax : Nat := 256
def astTextMax : Nat := 2048
def astPoolSize : Nat := 4096

/-- `snprintf(dst, size, "%s", s)` -/
def printed (size : Nat) (s : List UInt8) : List UInt8 := s.take (size - 1)

/-- The fields of `ast_node_t` that the parsing of sections sets, as `ast_alloc` leaves them. -/
structure AstFields where
  type : AstNodeType
  line : Int32 := 1
  name : List UInt8 := []
  typeName : List UInt8 := []
  hasType : Bool := false
  codeText : List UInt8 := []
  opStr : List UInt8 := []
  metaKey : List UInt8 := []
  metaValue : List UInt8 := []
  importPath : List UInt8 := []
  tileCategory : List UInt8 := []
  regionSize : Int32 := 0
  regionPerm : List UInt8 := []
  deriving DecidableEq, Repr

/-- `ast_node_t` with the nodes that its children point to. -/
inductive AstNode
  | mk (fields : AstFields) (children : List AstNode)

namespace AstNode

def fields : AstNode → AstFields
  | mk fields _ => fields

def children : AstNode → List AstNode
  | mk _ children => children

def withFields (node : AstNode) (f : AstFields → AstFields) : AstNode :=
  mk (f node.fields) node.children

/-- `ast_add_child` with a parent that is not `NULL`. -/
def addChild (parent : AstNode) : Option AstNode → AstNode
  | none => parent
  | some child =>
    if parent.children.length < astMaxChildren then mk parent.fields (parent.children ++ [child])
    else parent

end AstNode

def astAddChild (parent child : Option AstNode) : Option AstNode := parent.map (·.addChild child)

/-! ## The parser state -/

inductive ParseFault
  | lexer (e : LexFault)
  | nullNode
  | diverged
  deriving DecidableEq, Repr

/-- The functions that the parser calls on its lexer. -/
structure LexerFns (L : Type) where
  nextFn : L → Option FluxToken → Except ParseFault (L × Option FluxToken)
  lineFn : L → Int32

/-- `flux_parser_t`: `source` is the lexer with its functions, once they are set, and `pool` the number of
nodes in use. -/
structure FluxParser (L : Type) where
  source : Option (L × LexerFns L)
  peekTok : Option FluxToken
  pool : Nat
  numErrors : Nat
  maxErrors : Nat

def fluxParserInit (L : Type) : FluxParser L :=
  { source := none, peekTok := none, pool := 0, numErrors := 0, maxErrors := 32 }

namespace FluxParser

variable {L : Type} (p : FluxParser L)

def fluxParserSetLexer (lexer : L) (fns : LexerFns L) : FluxParser L :=
  { p with source := some (lexer, fns) }

def parserNext : Except ParseFault (FluxParser L) :=
  match p.source with
  | none => pure p
  | some (lexer, fns) => do
    let (lexer, peekTok) ← fns.nextFn lexer p.peekTok
    pure { p with source := some (lexer, fns), peekTok := peekTok }

def parserPeekType : TokenType :=
  match p.peekTok with
  | none => .EOF
  | some tok => tok.type

def parserPeekText : List UInt8 :=
  match p.peekTok with
  | none => []
  | some tok => cString tok.text

def parserPeekHeading : Int32 :=
  match p.peekTok with
  | none => 0
  | some tok => tok.headingLevel

def parserPeekLang : List UInt8 :=
  match p.peekTok with
  | none => []
  | some tok => cString tok.lang

def parserCheck (type : TokenType) : Bool := p.parserPeekType = type

/-- The heading level of the token, `0` if it is no heading. -/
def headingLevel : Int32 := if p.parserCheck .HEADING then p.parserPeekHeading else 0

/-- The token is a heading of level 1 or 2. -/
def atSection : Bool := p.headingLevel = 1 || p.headingLevel = 2

/-- A loop of at most `fuel` turns. -/
def loop {σ : Type} (fuel : Nat) (turn : σ → Except ParseFault (Option σ)) (s : σ) :
    Except ParseFault σ :=
  Faulting.loop turn .diverged fuel s

def parserSkipNewlines (fuel : Nat) : Except ParseFault (FluxParser L) :=
  loop fuel (fun p => if p.parserCheck .NEWLINE then some <$> p.parserNext else pure none) p

def parserSkipToSection (fuel : Nat) : Except ParseFault (FluxParser L) :=
  loop fuel (fun p => if p.parserCheck .EOF ∨ p.atSection then pure none else some <$> p.parserNext) p

/-! ## Nodes -/

def line : Int32 :=
  match p.source with
  | none => 1
  | some (lexer, fns) => fns.lineFn lexer

/-- A new node with the given fields, or `NULL` when the pool is used up. -/
def astAlloc (fields : AstFields) : Option AstNode × FluxParser L :=
  if p.pool < astPoolSize then (some (.mk fields []), { p with pool := p.pool + 1 }) else (none, p)

def astMakeModule (name : List UInt8) : Option AstNode × FluxParser L :=
  p.astAlloc { type := .MODULE, line := p.line, name := printed astNameMax name }

def astMakeFunction (name : List UInt8) : Option AstNode × FluxParser L :=
  p.astAlloc { type := .FUNCTION, line := p.line, name := printed astNameMax name }

def astMakeBlock : Option AstNode × FluxParser L := p.astAlloc { type := .BLOCK, line := p.line }

def astMakeAgentOp (agentName opType : List UInt8) : Option AstNode × FluxParser L :=
  p.astAlloc { type := .AGENT_OP, name := printed astNameMax agentName, opStr := printed 16 opType }

def astMakeTile (name category : List UInt8) : Option AstNode × FluxParser L :=
  p.astAlloc { type := .TILE, name := printed astNameMax name, tileCategory := printed 32 category }

def astMakeRegion (name : List UInt8) (size : Int32) (perm : List UInt8) :
    Option AstNode × FluxParser L :=
  p.astAlloc { type := .REGION, name := printed astNameMax name, regionSize := size,
               regionPerm := printed 16 perm }

def astMakeImport (path : List UInt8) : Option AstNode × FluxParser L :=
  p.astAlloc { type := .IMPORT, importPath := printed 256 path }

def astMakeExport (symbol : List UInt8) : Option AstNode × FluxParser L :=
  p.astAlloc { type := .EXPORT, name := printed astNameMax symbol }

def astMakeMeta (key value : List UInt8) : Option AstNode × FluxParser L :=
  p.astAlloc { type := .META, metaKey := printed 128 key, metaValue := printed 512 value }

def astMakeCodeInjection (code lang : List UInt8) : Option AstNode × FluxParser L :=
  p.astAlloc { type := .CODE_INJECTION, codeText := printed astTextMax code,
               typeName := printed 64 lang }

def astMakeParam (name type : List UInt8) : Option AstNode × FluxParser L :=
  p.astAlloc { type := .PARAM, name := printed astNameMax name, typeName := printed 64 type,
               hasType := true }

/-! ## Signatures of functions -/

end FluxParser

structure Signature where
  name : List UInt8
  params : List UInt8
  retType : List UInt8
  deriving DecidableEq, Repr

/-- The parameter list up to its closing parenthesis, with at most `room` bytes, and what follows. -/
def takeParams : (sig : List UInt8) → (depth room : Nat) → List UInt8 × List UInt8
  | [], _, _ => ([], [])
  | c :: sig, depth, room =>
    if depth = 0 ∨ room = 0 then ([], c :: sig)
    else
      let depth := if c = '('.toUInt8 then depth + 1 else if c = ')'.toUInt8 then depth - 1 else depth
      if 0 < depth then
        let (params, rest) := takeParams sig depth (room - 1)
        (c :: params, rest)
      else takeParams sig depth room

/-- `fn name(params) -> ret_type` in a heading. -/
def parseSignature (text : List UInt8) : Signature :=
  let start := match strstr text (bytes "fn ") with
    | some s => s.drop 3
    | none => match strstr text (bytes "function ") with
      | some s => s.drop 9
      | none => text
  let sig := start.dropWhile fun c => c = '#'.toUInt8 || c = ' '.toUInt8
  let name := (sig.takeWhile fun c => !(bytes "(: ").contains c).take (astNameMax - 1)
  let sig := (sig.drop name.length).dropWhile (· = ' '.toUInt8)
  let (params, sig) := match sig with
    | 40 :: rest =>
      let (params, rest) := takeParams rest 1 1023
      (params, if rest.head? = some ')'.toUInt8 then rest.drop 1 else rest)
    | _ => ([], sig)
  let retType := match strstr sig (bytes "->") with
    | some arrow => (((arrow.drop 2).dropWhile (· = ' '.toUInt8)).takeWhile (· ≠ ' '.toUInt8)).take 63
    | none => bytes "void"
  { name := name, params := params, retType := retType }

/-- `name: type` in a parameter list. -/
def parseParam (param : List UInt8) : List UInt8 × List UInt8 :=
  let param := param.dropWhile (· = ' '.toUInt8)
  let name := (param.takeWhile fun c => c ≠ ':'.toUInt8 && c ≠ ' '.toUInt8).take 127
  match strstr param (bytes ":") with
  | some colon =>
    let type := (colon.drop 1).dropWhile (· = ' '.toUInt8)
    (name, (type.takeWhile fun c => !(bytes ",) ").contains c).take 63)
  | none => (name, bytes "i32")

/-- The name behind the marker of a section: `marker:`, `marker ` or the whole heading. -/
def sectionName (marker : String) (text : List UInt8) : List UInt8 :=
  let start := match strstr text (bytes marker ++ bytes ":") with
    | some s => s
    | none => (strstr text (bytes marker ++ bytes " ")).getD text
  let start := start.dropWhile fun c => (bytes ": #").contains c
  strTrim ((start.takeWhile (· ≠ newline)).take (astNameMax - 1)) astNameMax

/-- `atoi`, where an `int` is `strtol` in base 10 cut to 32 bits. -/
def atoi (text : List UInt8) : Int32 :=
  let text := text.dropWhile fun c => (bytes " \t\n\r").contains c || c = 11 || c = 12
  let value (digits : List UInt8) : Nat := digitsValue 10 (digits.takeWhile isDigit)
  match text with
  | 45 :: digits => Int32.ofInt (-(min (value digits) (2 ^ 63) : Nat))
  | 43 :: digits => Int32.ofNat (min (value digits) (2 ^ 63 - 1))
  | digits => Int32.ofNat (min (value digits) (2 ^ 63 - 1))

namespace FluxParser

variable {L : Type} (p : FluxParser L)

/-! ## Sections -/

/-- One turn of the loop over the body of a function: the parser, the function and its body. -/
def functionTurn (fuel : Nat) (s : FluxParser L × AstNode × AstNode) :
    Except ParseFault (Option (FluxParser L × AstNode × AstNode)) := do
  let (p, func, body) := s
  if p.parserCheck .EOF ∨ p.atSection then pure none
  else if p.parserCheck .CODE_BLOCK then
    let p ← p.parserNext
    let p ← p.parserSkipNewlines fuel
    let code := p.parserPeekText
    match p.astMakeCodeInjection code p.parserPeekLang with
    | (some node, p) =>
      let func := func.withFields ({ · with codeText := printed astTextMax code })
      pure (some (p, func, body.addChild (some node)))
    | (none, p) => pure (some (p, func, body))
  else if p.parserCheck .META_KEY then
    let p ← p.parserNext
    if p.parserCheck .META_VALUE then
      let p ← p.parserNext
      let (node, p) := p.astMakeMeta p.parserPeekText p.parserPeekText
      pure (some (p, func.addChild node, body))
    else pure (some (p, func, body))
  else
    let p ← p.parserNext
    pure (some (p, func, body))

def addParams (func : AstNode) (params : List UInt8) : AstNode × FluxParser L :=
  (commaSeparated params).foldl (fun (func, p) param =>
    let (name, type) := parseParam param
    let (node, p) := p.astMakeParam name type
    (func.addChild node, p)) (func, p)

def parseFunctionSection (fuel : Nat) : Except ParseFault (Option AstNode × FluxParser L) := do
  let p ← p.parserNext
  let p ← p.parserSkipNewlines fuel
  let sig := parseSignature p.parserPeekText
  match p.astMakeFunction sig.name with
  | (none, p) => pure (none, p)
  | (some func, p) =>
    let func := func.withFields ({ · with typeName := printed 64 sig.retType, hasType := true })
    let (func, p) := p.addParams func sig.params
    match p.astMakeBlock with
    | (none, p) => pure (some func, p)
    | (some body, p) =>
      let (p, func, body) ← loop fuel (functionTurn fuel) (p, func, body)
      pure (some (func.addChild (some body)), p)

/-- One turn of the loops over the bodies of agents and tiles: the parser, the node and its body.
`onMeta` is what a metadata entry with the given key and value does to the node besides. -/
def bodyTurn (onMeta : List UInt8 → List UInt8 → Option AstNode → Except ParseFault (Option AstNode))
    (s : FluxParser L × Option AstNode × AstNode) :
    Except ParseFault (Option (FluxParser L × Option AstNode × AstNode)) := do
  let (p, node, body) := s
  if p.parserCheck .EOF ∨ p.atSection then pure none
  else if p.parserCheck .CODE_BLOCK then
    let p ← p.parserNext
    let (code, p) := p.astMakeCodeInjection p.parserPeekText p.parserPeekLang
    pure (some (p, node, body.addChild code))
  else if p.parserCheck .META_KEY then
    let p ← p.parserNext
    if p.parserCheck .META_VALUE then
      let p ← p.parserNext
      let node ← onMeta p.parserPeekText p.parserPeekText node
      let (entry, p) := p.astMakeMeta p.parserPeekText p.parserPeekText
      pure (some (p, astAddChild node entry, body))
    else pure (some (p, node, body))
  else
    let p ← p.parserNext
    pure (some (p, node, body))

/-- The body of an agent or a tile. -/
def parseBody (fuel : Nat)
    (onMeta : List UInt8 → List UInt8 → Option AstNode → Except ParseFault (Option AstNode))
    (node : Option AstNode) : Except ParseFault (Option AstNode × FluxParser L) := do
  match p.astMakeBlock with
  | (none, p) => pure (node, p)
  | (some body, p) =>
    let (p, node, body) ← loop fuel (bodyTurn onMeta) (p, node, body)
    pure (astAddChild node (some body), p)

def parseAgentSection (fuel : Nat) : Except ParseFault (Option AstNode × FluxParser L) := do
  let p ← p.parserNext
  let p ← p.parserSkipNewlines fuel
  let (agent, p) := p.astMakeAgentOp (sectionName "agent" p.parserPeekText) (bytes "agent")
  p.parseBody fuel (fun _ _ agent => pure agent) agent

/-- `snprintf(tile->tile_category, 32, "%s", val)` for the key `category`. -/
def tileMeta (key value : List UInt8) (tile : Option AstNode) : Except ParseFault (Option AstNode) :=
  if key = bytes "category" then
    match tile with
    | none => throw .nullNode
    | some tile => pure (some (tile.withFields ({ · with tileCategory := printed 32 value })))
  else pure tile

def parseTileSection (fuel : Nat) : Except ParseFault (Option AstNode × FluxParser L) := do
  let p ← p.parserNext
  let p ← p.parserSkipNewlines fuel
  let (tile, p) := p.astMakeTile (sectionName "tile" p.parserPeekText) (bytes "compute")
  p.parseBody fuel tileMeta tile

/-- The keys `size` and `perm` of a region. -/
def regionMeta (key value : List UInt8) (region : Option AstNode) :
    Except ParseFault (Option AstNode) :=
  if key = bytes "size" then
    match region with
    | none => throw .nullNode
    | some region => pure (some (region.withFields ({ · with regionSize := atoi value })))
  else if key = bytes "perm" then
    match region with
    | none => throw .nullNode
    | some region => pure (some (region.withFields ({ · with regionPerm := printed 16 value })))
  else pure region

/-- One turn of the loop over the metadata of a region. -/
def regionTurn (s : FluxParser L × Option AstNode) :
    Except ParseFault (Option (FluxParser L × Option AstNode)) := do
  let (p, region) := s
  if p.parserCheck .EOF ∨ p.atSection then pure none
  else if p.parserCheck .META_KEY then
    let p ← p.parserNext
    if p.parserCheck .META_VALUE then
      let p ← p.parserNext
      let region ← regionMeta p.parserPeekText p.parserPeekText region
      let (entry, p) := p.astMakeMeta p.parserPeekText p.parserPeekText
      pure (some (p, astAddChild region entry))
    else pure (some (p, region))
  else
    let p ← p.parserNext
    pure (some (p, region))

def parseRegionSection (fuel : Nat) : Except ParseFault (Option AstNode × FluxParser L) := do
  let p ← p.parserNext
  let p ← p.parserSkipNewlines fuel
  let (region, p) := p.astMakeRegion (sectionName "region" p.parserPeekText) 4096 (bytes "rw")
  let (p, region) ← loop fuel regionTurn (p, region)
  pure (region, p)

def parseImportSection : Except ParseFault (Option AstNode × FluxParser L) := do
  let p ← p.parserNext
  pure (p.astMakeImport (sectionName "import" p.parserPeekText))

def parseExportSection : Except ParseFault (Option AstNode × FluxParser L) := do
  let p ← p.parserNext
  pure (p.astMakeExport (sectionName "export" p.parserPeekText))

/-! ## Documents -/

end FluxParser

/-- The kind of section that a heading of level 2 opens. -/
def sectionKind (heading : List UInt8) : Option AstNodeType :=
  let has (marker : String) : Bool := (strstr heading (bytes marker)).isSome
  if has "fn " || has "function " then some .FUNCTION
  else if has "agent" then some .AGENT_OP
  else if has "tile" then some .TILE
  else if has "region" then some .REGION
  else if has "import" then some .IMPORT
  else if has "export" then some .EXPORT
  else none

/-- The name of a module: what follows the `#` of its heading.  (The source keeps it in a buffer whose
block has ended when the node is made; the model takes what was stored there.) -/
def moduleName (heading : List UInt8) : List UInt8 :=
  let name := (heading.dropWhile (· = '#'.toUInt8)).dropWhile (· = ' '.toUInt8)
  strTrim ((name.takeWhile (· ≠ newline)).take (astNameMax - 1)) astNameMax

namespace FluxParser

variable {L : Type} (p : FluxParser L)

/-- A section with the heading that the parser stands at. -/
def parseSection (fuel : Nat) : Except ParseFault (Option AstNode × FluxParser L) :=
  match sectionKind p.parserPeekText with
  | some .FUNCTION => p.parseFunctionSection fuel
  | some .AGENT_OP => p.parseAgentSection fuel
  | some .TILE => p.parseTileSection fuel
  | some .REGION => p.parseRegionSection fuel
  | some .IMPORT => p.parseImportSection
  | some .EXPORT => p.parseExportSection
  | _ => do
    let p ← p.parserNext
    let p ← p.parserSkipToSection fuel
    pure (none, p)

/-- One turn of the loop over the sections of a module. -/
def moduleTurn (fuel : Nat) (s : FluxParser L × AstNode) :
    Except ParseFault (Option (FluxParser L × AstNode)) := do
  let (p, module) := s
  if p.parserCheck .EOF then pure none
  else
    let p ← p.parserSkipNewlines fuel
    if p.parserCheck .EOF then pure (some (p, module))
    else if p.headingLevel = 1 then
      let p ← p.parserNext
      pure (some (p, module))
    else if p.headingLevel = 2 then
      let (node, p) ← p.parseSection fuel
      pure (some (p, module.addChild node))
    else if 3 ≤ p.headingLevel then
      let p ← p.parserNext
      let p ← p.parserSkipToSection fuel
      pure (some (p, module))
    else if p.parserCheck .CODE_BLOCK then
      let p ← p.parserNext
      let (code, p) := p.astMakeCodeInjection p.parserPeekText p.parserPeekLang
      pure (some (p, module.addChild code))
    else if p.parserCheck .META_KEY then
      let p ← p.parserNext
      if p.parserCheck .META_VALUE then
        let p ← p.parserNext
        let (entry, p) := p.astMakeMeta p.parserPeekText p.parserPeekText
        pure (some (p, module.addChild entry))
      else pure (some (p, module))
    else
      let p ← p.parserNext
      pure (some (p, module))

/-- The name of the module that the parser stands at. -/
def parseModuleHeading (fuel : Nat) : Except ParseFault (List UInt8 × FluxParser L) :=
  if p.headingLevel = 1 then do
    let name := moduleName p.parserPeekText
    let p ← p.parserNext
    let p ← p.parserSkipNewlines fuel
    pure (name, p)
  else pure (bytes "unnamed", p)

/-- The module with its sections. -/
def parseModule (fuel : Nat) (name : List UInt8) :
    Except ParseFault (Option AstNode × FluxParser L) :=
  match p.astMakeModule name with
  | (none, p) => pure (none, p)
  | (some module, p) => do
    let (p, module) ← loop fuel (moduleTurn fuel) (p, module)
    pure (some module, p)

/-- `flux_parser_parse`, in which no loop takes more than `fuel` turns. -/
def fluxParserParse (fuel : Nat) : Except ParseFault (Option AstNode × FluxParser L) := do
  let p ← { p with pool := 0, numErrors := 0 }.parserNext
  let (name, p) ← p.parseModuleHeading fuel
  p.parseModule fuel name

end FluxParser

/-! ## The parser of a FLUX.MD document -/

/-- `flux_lexer_next`, which does nothing without a token to fill in. -/
def fluxLexerFns : LexerFns FluxLexer where
  nextFn lexer
    | none => pure (lexer, none)
    | some _ =>
      match lexer.fluxLexerNext with
      | .ok (tok, lexer) => pure (lexer, some tok)
      | .error e => throw (.lexer e)
  lineFn lexer := lexer.line

end FluxOs
