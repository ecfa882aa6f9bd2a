import FluxOs.Lib.Loops

/-!
# The FLUX.MD lexer

`src/fluxc/lexer.c`: tokens, the state of the lexer, how it moves over the source, and its
initialization.  Bytes are the C locale's
characters.  A read outside the source, a copy of a negative number of bytes and a loop that does not end
are faults.
-/

namespace FluxOs

open Faulting

/-- The bytes of a text. -/
def bytes (s : String) : List UInt8 := s.toList.map Char.toUInt8

/-! ## Tokens -/

inductive TokenType
  | HEADING
  | TEXT
  | CODE_BLOCK
  | INLINE_CODE
  | LIST_ITEM
  | META_KEY
  | META_VALUE
  | NEWLINE
  | EOF
  | IDENTIFIER
  | NUMBER
  | STRING
  | OPERATOR
  | PUNCTUATION
  | KEYWORD
  | TYPE
  | COMMENT
  | DIRECTIVE
  deriving DecidableEq, Repr

def fluxTokenTextMax : Nat := 2048

/-- The value of a number token: `int_val` of an integer literal (`float_val` is the same number), or
that `float_val` is what `strtod` makes of the text. -/
inductive NumberValue
  | int (n : Int32)
  | float
  deriving DecidableEq, Repr

/-- `flux_token_t`; the field `length` is the length of `text`. -/
structure FluxToken where
  type : TokenType
  line : Int32
  col : Int32
  text : List UInt8
  headingLevel : Int32
  lang : List UInt8
  value : NumberValue
  deriving DecidableEq, Repr

def fluxTokenInit : FluxToken :=
  { type := .EOF, line := 1, col := 1, text := [], headingLevel := 0, lang := [], value := .int 0 }

/-! ## The state of the lexer -/

inductive LexFault
  | read (pos : Nat)
  | copy (length : Int32)
  | diverged
  deriving DecidableEq, Repr

/-- `flux_lexer_t`; the first `source_len` bytes of the buffer are `source`. -/
structure FluxLexer where
  source : List UInt8
  pos : Nat
  line : Int32
  col : Int32
  parenDepth : Int32
  deriving DecidableEq, Repr

namespace FluxLexer

variable (lex : FluxLexer)

def sourceLen : Nat := lex.source.length

/-- `source[i]` -/
def byteAt (i : Nat) : Except LexFault UInt8 :=
  match lex.source[i]? with
  | some c => pure c
  | none => throw (.read i)

/-- `pos + k < source_len && p(source[pos + k])` -/
def ahead (k : Nat) (p : UInt8 → Bool) : Except LexFault Bool :=
  if lex.pos + k < lex.sourceLen then p <$> lex.byteAt (lex.pos + k) else pure false

/-- `pos += n; col += n;` -/
def advance (n : Nat) : FluxLexer := { lex with pos := lex.pos + n, col := lex.col + Int32.ofNat n }

/-- `pos++; line++; col = 1;` -/
def advanceLine : FluxLexer := { lex with pos := lex.pos + 1, line := lex.line + 1, col := 1 }

/-- Go over the byte `c` and keep the line and the column. -/
def advanceOver (c : UInt8) : FluxLexer := if c = '\n'.toUInt8 then lex.advanceLine else lex.advance 1

/-- `while (body)`, where every turn goes forward in the source. -/
def loop (body : FluxLexer → Except LexFault (Option FluxLexer)) : Except LexFault FluxLexer :=
  Faulting.loop body .diverged (lex.sourceLen - lex.pos + 1) lex

/-- `while (pos < source_len && p(source[pos])) { pos++; col++; }` -/
def advanceWhile (p : UInt8 → Bool) : Except LexFault FluxLexer :=
  lex.loop fun lex => do
    if ← lex.ahead 0 p then pure (some (lex.advance 1)) else pure none

/-- The same loop with a counter of at most `n` turns. -/
def advanceAtMost (n : Nat) (p : UInt8 → Bool) : Except LexFault FluxLexer :=
  let start := lex.pos
  lex.loop fun lex => do
    if (← lex.ahead 0 p) && lex.pos - start < n then pure (some (lex.advance 1)) else pure none

/-- The same loop, where the line and the column are kept. -/
def advanceOverWhile (p : UInt8 → Bool) : Except LexFault FluxLexer :=
  lex.loop fun lex => do
    if ← lex.ahead 0 p then (fun c => some (lex.advanceOver c)) <$> lex.byteAt lex.pos else pure none

/-- `if (pos < source_len && p(source[pos])) { pos++; col++; }` -/
def advanceIf (p : UInt8 → Bool) : Except LexFault FluxLexer := do
  if ← lex.ahead 0 p then pure (lex.advance 1) else pure lex

/-- `source[start .. pos)` -/
def slice (start : Nat) : List UInt8 := (lex.source.drop start).take (lex.pos - start)

/-- The copy of `source[start .. pos)` into the text of a token: `int len = (int)(pos - start)`, cut to
the size of the text, and `memcpy`. -/
def copyText (start : Nat) : Except LexFault (List UInt8) :=
  let len := Int32.ofNat (lex.pos - start)
  if len < 0 then throw (.copy len)
  else if lex.sourceLen < lex.pos then throw (.read lex.pos)
  else pure ((lex.slice start).take (min len.toNatClampNeg (fluxTokenTextMax - 1)))

def fluxLexerNextChar : Except LexFault (UInt8 × FluxLexer) :=
  if lex.pos < lex.sourceLen then do
    let c ← lex.byteAt lex.pos
    pure (c, lex.advanceOver c)
  else pure (0, lex)

end FluxLexer

/-! ## Classes of bytes -/

def isDigit (c : UInt8) : Bool := '0'.toUInt8 ≤ c && c ≤ '9'.toUInt8

def isAlpha (c : UInt8) : Bool :=
  ('A'.toUInt8 ≤ c && c ≤ 'Z'.toUInt8) || ('a'.toUInt8 ≤ c && c ≤ 'z'.toUInt8)

def isAlnum (c : UInt8) : Bool := isAlpha c || isDigit c

def isXDigit (c : UInt8) : Bool :=
  isDigit c || ('A'.toUInt8 ≤ c && c ≤ 'F'.toUInt8) || ('a'.toUInt8 ≤ c && c ≤ 'f'.toUInt8)

/-- A byte of an identifier. -/
def isWord (c : UInt8) : Bool := isAlnum c || c = '_'.toUInt8 || c = '-'.toUInt8

def isBlank (c : UInt8) : Bool := c = ' '.toUInt8 || c = '\t'.toUInt8

def newline : UInt8 := '\n'.toUInt8

def backquote : UInt8 := 96

def singleQuote : UInt8 := 39

def doubleQuote : UInt8 := 34

def backslash : UInt8 := 92

/-! ## Blanks and comments -/

namespace FluxLexer

variable (lex : FluxLexer)

def fluxLexerSkipLineComment : Except LexFault FluxLexer := lex.advanceWhile (· ≠ newline)

/-- One turn of the loop over a block comment, with the nesting depth. -/
def blockCommentTurn (s : FluxLexer × Nat) : Except LexFault (Option (FluxLexer × Nat)) :=
  let (lex, depth) := s
  if lex.pos < lex.sourceLen - 1 ∧ 0 < depth then do
    let c ← lex.byteAt lex.pos
    let next ← lex.byteAt (lex.pos + 1)
    if c = '/'.toUInt8 ∧ next = '*'.toUInt8 then pure (some (lex.advance 2, depth + 1))
    else if c = '*'.toUInt8 ∧ next = '/'.toUInt8 then pure (some (lex.advance 2, depth - 1))
    else pure (some (lex.advanceOver c, depth))
  else pure none

def fluxLexerSkipBlockComment : Except LexFault FluxLexer := do
  let lex := lex.advance 2
  let (lex, _) ← Faulting.loop blockCommentTurn .diverged (lex.sourceLen - lex.pos + 1) (lex, 1)
  pure lex

def skipTurn : Except LexFault (Option FluxLexer) :=
  if lex.pos < lex.sourceLen then do
    let c ← lex.byteAt lex.pos
    if isBlank c then pure (some (lex.advance 1))
    else if c = '/'.toUInt8 ∧ lex.pos + 1 < lex.sourceLen then
      let next ← lex.byteAt (lex.pos + 1)
      if next = '/'.toUInt8 then some <$> lex.fluxLexerSkipLineComment
      else if next = '*'.toUInt8 then some <$> lex.fluxLexerSkipBlockComment
      else pure none
    else pure none
  else pure none

def fluxLexerSkipWhitespaceAndComments : Except LexFault FluxLexer := lex.loop skipTurn

/-! ## Initialization -/

/-- One turn of the loop that looks for the end of the frontmatter. -/
def frontmatterTurn (s : FluxLexer × Bool) : Except LexFault (Option (FluxLexer × Bool)) :=
  let (lex, closed) := s
  if ¬ closed ∧ lex.pos < lex.sourceLen - 2 then do
    let c ← lex.byteAt lex.pos
    let c1 ← lex.byteAt (lex.pos + 1)
    let c2 ← lex.byteAt (lex.pos + 2)
    if c = '-'.toUInt8 ∧ c1 = '-'.toUInt8 ∧ c2 = '-'.toUInt8 then
      let lex := lex.advance 3
      if ← lex.ahead 0 (· = newline) then pure (some (lex.advanceLine, true))
      else pure (some (lex, true))
    else pure (some (lex.advanceOver c, false))
  else pure none

end FluxLexer

def fluxLexerInit (source : List UInt8) : Except LexFault FluxLexer :=
  let lex : FluxLexer := { source := source, pos := 0, line := 1, col := 1, parenDepth := 0 }
  if source.take 3 = bytes "---" then do
    let lex := lex.advance 3
    let (lex, _) ← Faulting.loop FluxLexer.frontmatterTurn .diverged
      (lex.sourceLen - lex.pos + 1) (lex, false)
    pure lex
  else pure lex

end FluxOs
