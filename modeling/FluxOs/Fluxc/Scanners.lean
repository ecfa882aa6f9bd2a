import FluxOs.Fluxc.Lexer
import Mathlib.Algebra.GroupWithZero.Nat

/-!
# The scanners of the FLUX.MD lexer

`src/fluxc/lexer.c`: the scanners of the kinds of tokens and the dispatcher `flux_lexer_scan_next`.  A
scanner finds the end of its token, `…End`, and copies the text up to there.
-/

namespace FluxOs

open Faulting

/-! ## Words and numbers -/

def fluxKeywords : List String :=
  ["fn", "let", "var", "const", "if", "else", "elif",
    "while", "for", "loop", "break", "continue", "return",
    "import", "export", "module", "struct", "enum", "union",
    "type", "trait", "impl", "agent", "tile", "region",
    "spawn", "tell", "ask", "delegate", "barrier",
    "true", "false", "nil", "null", "void",
    "i8", "i16", "i32", "i64", "f32", "f64",
    "bool", "ptr", "str", "u8", "u16", "u32", "u64",
    "capability", "bytecode"]

def fluxTypeKeywords : List String :=
  ["i8", "i16", "i32", "i64",
    "u8", "u16", "u32", "u64",
    "f32", "f64",
    "bool", "ptr", "str", "void",
    "capability", "bytecode", "region",
    "agent", "struct", "enum", "union",
    "func", "array"]

def fluxLexerIsKeyword (word : List UInt8) : Bool := fluxKeywords.any fun k => bytes k = word

def fluxLexerIsTypeKeyword (word : List UInt8) : Bool := fluxTypeKeywords.any fun k => bytes k = word

/-- The digit that a byte is, in bases up to 16. -/
def digitValue (c : UInt8) : Nat :=
  if isDigit c then c.toNat - 48 else if c < 97 then c.toNat - 55 else c.toNat - 87

def digitsValue (base : Nat) (ds : List UInt8) : Nat := ds.foldl (fun n c => n * base + digitValue c) 0

def isOctal (c : UInt8) : Bool := '0'.toUInt8 ≤ c && c ≤ '7'.toUInt8

/-- The number that `strtol` with base 0 reads at the start of a text without blanks and sign. -/
def literalValue (text : List UInt8) : Nat :=
  match text with
  | 48 :: x :: d :: ds =>
    if (x = 'x'.toUInt8 ∨ x = 'X'.toUInt8) ∧ isXDigit d then digitsValue 16 ((d :: ds).takeWhile isXDigit)
    else digitsValue 8 (text.takeWhile isOctal)
  | 48 :: _ => digitsValue 8 (text.takeWhile isOctal)
  | _ => digitsValue 10 (text.takeWhile isDigit)

/-- `strtol(text, NULL, 0)`, where `LONG_MAX` is returned for a number out of range. -/
def strtol (text : List UInt8) : Nat := min (literalValue text) (2 ^ 63 - 1)

namespace FluxLexer

variable (lex : FluxLexer)

/-! ## Scanners -/

/-- A token that starts at the position of the lexer. -/
def token (type : TokenType) (text : List UInt8) : FluxToken :=
  { fluxTokenInit with type := type, line := lex.line, col := lex.col, text := text }

def fluxLexerScanNewline : Except LexFault (FluxToken × FluxLexer) := do
  let (c, stop) ← lex.fluxLexerNextChar
  if c = '\r'.toUInt8 ∧ (← stop.ahead 0 (· = newline)) then
    let (_, stop) ← stop.fluxLexerNextChar
    pure (lex.token .NEWLINE (stop.slice lex.pos), stop)
  else pure (lex.token .NEWLINE (stop.slice lex.pos), stop)

/-- Behind the `#` of a heading. -/
def headingMark : Except LexFault FluxLexer := lex.advanceWhile (· = '#'.toUInt8)

def headingEnd : Except LexFault FluxLexer := do
  let mark ← lex.headingMark
  let text ← mark.advanceIf (· = ' '.toUInt8)
  text.advanceWhile (· ≠ newline)

def fluxLexerScanHeading : Except LexFault (FluxToken × FluxLexer) := do
  let mark ← lex.headingMark
  let level := Int32.ofNat (mark.pos - lex.pos)
  let stop ← lex.headingEnd
  let text ← stop.copyText lex.pos
  pure ({ lex.token .HEADING text with headingLevel := if 6 < level then 6 else level }, stop)

/-- Behind the language tag of a code block. -/
def codeBlockLang : Except LexFault FluxLexer :=
  (lex.advance 3).advanceAtMost 63 fun c => c ≠ newline && c ≠ ' '.toUInt8

/-- The start of the body of a code block. -/
def codeBlockBody : Except LexFault FluxLexer := do
  let lang ← lex.codeBlockLang
  let eol ← lang.advanceWhile (· ≠ newline)
  pure (if eol.pos < eol.sourceLen then eol.advanceLine else eol)

/-- The lexer stands at three backquotes. -/
def atFence : Except LexFault Bool := do
  pure ((← lex.ahead 0 (· = backquote)) && (← lex.ahead 1 (· = backquote)) &&
    (← lex.ahead 2 (· = backquote)))

/-- The end of the body of a code block: the closing fence, or the end of the source. -/
def closingFence : Except LexFault FluxLexer :=
  lex.loop fun lex => do
    if lex.pos < lex.sourceLen then
      if ← lex.atFence then pure none
      else
        let c ← lex.byteAt lex.pos
        pure (some (lex.advanceOver c))
    else pure none

/-- Behind the closing fence and the end of its line. -/
def codeBlockClose : Except LexFault FluxLexer := do
  if lex.pos < lex.sourceLen then
    let after := lex.advance 3
    if ← after.ahead 0 (· = newline) then pure after.advanceLine else pure after
  else pure lex

def fluxLexerScanCodeBlock : Except LexFault (FluxToken × FluxLexer) := do
  let lang ← lex.codeBlockLang
  let body ← lex.codeBlockBody
  let stop ← body.closingFence
  let text ← stop.copyText body.pos
  let after ← stop.codeBlockClose
  pure ({ lex.token .CODE_BLOCK text with lang := lang.slice (lex.pos + 3) }, after)

def inlineCodeEnd : Except LexFault FluxLexer := (lex.advance 1).advanceOverWhile (· ≠ backquote)

def fluxLexerScanInlineCode : Except LexFault (FluxToken × FluxLexer) := do
  let stop ← lex.inlineCodeEnd
  let text ← stop.copyText (lex.pos + 1)
  pure (lex.token .INLINE_CODE text, if stop.pos < stop.sourceLen then stop.advance 1 else stop)

/-- The end of the line, behind a marker of one byte and a blank. -/
def lineEnd : Except LexFault FluxLexer := do
  let text ← (lex.advance 1).advanceIf (· = ' '.toUInt8)
  text.advanceWhile (· ≠ newline)

def fluxLexerScanListItem : Except LexFault (FluxToken × FluxLexer) := do
  let stop ← lex.lineEnd
  let text ← stop.copyText lex.pos
  pure (lex.token .LIST_ITEM text, stop)

def wordEnd : Except LexFault FluxLexer := lex.advanceWhile isWord

def fluxLexerScanMetadata (emitKey : Bool) : Except LexFault (FluxToken × FluxLexer) := do
  let stop ← if emitKey then lex.wordEnd else lex.lineEnd
  let text ← stop.copyText lex.pos
  pure (lex.token (if emitKey then .META_KEY else .META_VALUE) text, stop)

def fluxLexerScanIdentifier : Except LexFault (FluxToken × FluxLexer) := do
  let stop ← lex.wordEnd
  let text ← stop.copyText lex.pos
  let type := if fluxLexerIsTypeKeyword text then .TYPE
    else if fluxLexerIsKeyword text then .KEYWORD else .IDENTIFIER
  pure (lex.token type text, stop)

/-- Behind the digits of a decimal number and its fraction, and whether it has one. -/
def numberFraction : Except LexFault (FluxLexer × Bool) := do
  let whole ← lex.advanceWhile isDigit
  if ← whole.ahead 0 (· = '.'.toUInt8) then
    let stop ← (whole.advance 1).advanceWhile isDigit
    pure (stop, true)
  else pure (whole, false)

/-- Behind the exponent of a decimal number, and whether it is a float. -/
def numberExponent (hasFraction : Bool) : Except LexFault (FluxLexer × Bool) := do
  if ← lex.ahead 0 fun c => c = 'e'.toUInt8 || c = 'E'.toUInt8 then
    let sign ← (lex.advance 1).advanceIf fun c => c = '+'.toUInt8 || c = '-'.toUInt8
    let stop ← sign.advanceWhile isDigit
    pure (stop, true)
  else pure (lex, hasFraction)

def numberDigits : Except LexFault (FluxLexer × Bool) := do
  if (← lex.ahead 0 (· = '0'.toUInt8)) &&
      (← lex.ahead 1 fun c => c = 'x'.toUInt8 || c = 'X'.toUInt8) then
    let stop ← (lex.advance 2).advanceWhile fun c => isXDigit c || c = '_'.toUInt8
    pure (stop, false)
  else
    let (fraction, hasFraction) ← lex.numberFraction
    fraction.numberExponent hasFraction

/-- Behind the type suffix of a number. -/
def numberSuffix : Except LexFault FluxLexer := do
  if ← lex.ahead 0 fun c => c = 'i'.toUInt8 || c = 'f'.toUInt8 || c = 'u'.toUInt8 then
    (lex.advance 1).advanceWhile isDigit
  else pure lex

def numberEnd : Except LexFault (FluxLexer × Bool) := do
  let (digits, isFloat) ← lex.numberDigits
  let stop ← digits.numberSuffix
  pure (stop, isFloat)

def fluxLexerScanNumber : Except LexFault (FluxToken × FluxLexer) := do
  let (stop, isFloat) ← lex.numberEnd
  let text ← stop.copyText lex.pos
  let value := if isFloat then .float else .int (Int32.ofNat (strtol text))
  pure ({ lex.token .NUMBER text with value := value }, stop)

/-- The byte that an escape of one byte stands for. -/
def escape (c : UInt8) : UInt8 :=
  if c = 'n'.toUInt8 then '\n'.toUInt8
  else if c = 't'.toUInt8 then '\t'.toUInt8
  else if c = 'r'.toUInt8 then '\r'.toUInt8
  else if c = '0'.toUInt8 then 0
  else c

/-- One turn of the loop over a string, with the text so far. -/
def stringTurn (quote : UInt8) (s : FluxLexer × List UInt8) :
    Except LexFault (Option (FluxLexer × List UInt8)) := do
  let (lex, text) := s
  if (← lex.ahead 0 (· ≠ quote)) && text.length < fluxTokenTextMax - 1 then
    let c ← lex.byteAt lex.pos
    if c = backslash ∧ lex.pos + 1 < lex.sourceLen then
      let lex := lex.advance 1
      let e ← lex.byteAt lex.pos
      if e ≠ '0'.toUInt8 ∧ isOctal e then
        let stop ← lex.advanceAtMost 3 isOctal
        pure (some (stop, text ++ [UInt8.ofNat (digitsValue 8 (stop.slice lex.pos))]))
      else pure (some (lex.advance 1, text ++ [escape e]))
    else pure (some (lex.advanceOver c, text ++ [c]))
  else pure none

/-- Behind the content of a string, with its text. -/
def stringEnd : Except LexFault (FluxLexer × List UInt8) := do
  let quote ← lex.byteAt lex.pos
  Faulting.loop (stringTurn quote) .diverged (lex.sourceLen - lex.pos + 1) (lex.advance 1, [])

def fluxLexerScanString : Except LexFault (FluxToken × FluxLexer) := do
  let (stop, text) ← lex.stringEnd
  pure (lex.token .STRING text, if stop.pos < stop.sourceLen then stop.advance 1 else stop)

/-- The operators of two bytes. -/
def isPair (c c2 : UInt8) : Bool :=
  (["==", "=>", "!=", "<=", "<<", ">=", ">>", "&&", "||", "->", "+=", "++", "-=", "--", "*=", "**",
    "/=", "%=", "^=", "::", ".."].map bytes).contains [c, c2]

/-- The operators of three bytes. -/
def isTriple (c c2 c3 : UInt8) : Bool :=
  (["===", "<<=", ">>=", "..."].map bytes).contains [c, c2, c3]

def operatorEnd : Except LexFault FluxLexer := do
  let c ← lex.byteAt lex.pos
  let lex := lex.advance 1
  if lex.pos < lex.sourceLen then
    let c2 ← lex.byteAt lex.pos
    if isPair c c2 then (lex.advance 1).advanceIf (isTriple c c2) else pure lex
  else pure lex

def fluxLexerScanOperator : Except LexFault (FluxToken × FluxLexer) := do
  let stop ← lex.operatorEnd
  let text ← stop.copyText lex.pos
  pure (lex.token .OPERATOR text, stop)

def fluxLexerScanPunctuation : Except LexFault (FluxToken × FluxLexer) := do
  let c ← lex.byteAt lex.pos
  let depth := if (bytes "([\x7b").contains c then lex.parenDepth + 1
    else if (bytes ")]\x7d").contains c ∧ 0 < lex.parenDepth then lex.parenDepth - 1
    else lex.parenDepth
  pure (lex.token .PUNCTUATION [c], { lex.advance 1 with parenDepth := depth })

def directiveEnd : Except LexFault FluxLexer := (lex.advance 2).wordEnd

def fluxLexerScanDirective : Except LexFault (FluxToken × FluxLexer) := do
  let stop ← lex.directiveEnd
  let text ← stop.copyText lex.pos
  pure (lex.token .DIRECTIVE text, stop)

/-- A list marker inside a text stands at the start of a line or behind a blank. -/
def atListMarker : Except LexFault Bool :=
  if lex.col = 1 then pure true
  else if 1 < lex.col then
    if lex.pos = 0 then throw (.read lex.pos) else (· = ' '.toUInt8) <$> lex.byteAt (lex.pos - 1)
  else pure false

/-- The bytes that end a text anywhere. -/
def endsText (c : UInt8) : Bool :=
  c = newline || c = '#'.toUInt8 || c = backquote || (bytes "|<>[]").contains c

def textTurn : Except LexFault (Option FluxLexer) :=
  if lex.pos < lex.sourceLen then do
    let c ← lex.byteAt lex.pos
    if endsText c then pure none
    else if c = '-'.toUInt8 ∨ c = '*'.toUInt8 then
      if ← lex.atListMarker then pure none else pure (some (lex.advance 1))
    else pure (some (lex.advance 1))
  else pure none

def textEnd : Except LexFault FluxLexer := lex.loop textTurn

def fluxLexerScanText : Except LexFault (FluxToken × FluxLexer) := do
  let stop ← lex.textEnd
  let text ← stop.copyText lex.pos
  pure (lex.token .TEXT text, stop)

/-! ## The dispatcher -/

/-- One turn of the search for a colon: the index, whether there was a letter or a digit, and whether
the line is metadata. -/
def metadataTurn (s : Nat × Bool × Bool) : Except LexFault (Option (Nat × Bool × Bool)) :=
  let (i, hasAlpha, found) := s
  if ¬ found ∧ i < lex.sourceLen then do
    let c ← lex.byteAt i
    if c = newline then pure none
    else if isAlnum c ∨ c = '_'.toUInt8 then pure (some (i + 1, true, false))
    else if c = ':'.toUInt8 ∧ hasAlpha then
      if i + 1 < lex.sourceLen then
        let next ← lex.byteAt (i + 1)
        pure (some (i + 1, hasAlpha, isBlank next))
      else pure (some (i + 1, hasAlpha, false))
    else if ¬ hasAlpha ∧ isBlank c then pure (some (i + 1, hasAlpha, false))
    else if c ≠ '-'.toUInt8 ∧ c ≠ '_'.toUInt8 then pure none
    else pure (some (i + 1, hasAlpha, false))
  else pure none

def fluxLexerIsMetadataLine : Except LexFault Bool := do
  let (_, _, found) ← Faulting.loop lex.metadataTurn .diverged (lex.sourceLen - lex.pos + 1)
    (lex.pos, false, false)
  pure found

/-- The scanners that `flux_lexer_scan_next` chooses from. -/
inductive Scanner
  | newline
  | directive
  | heading
  | codeBlock
  | inlineCode
  | listItem
  | metadata
  | string
  | number
  | identifier
  | operator
  | punctuation
  | text
  deriving DecidableEq, Repr

/-- The branch of `flux_lexer_scan_next` at a byte of the source. -/
def scanner : Except LexFault Scanner := do
  let c ← lex.byteAt lex.pos
  let next (p : UInt8 → Bool) : Except LexFault Bool := lex.ahead 1 p
  if c = FluxOs.newline ∨ c = '\r'.toUInt8 then pure .newline
  else if c = '#'.toUInt8 ∧ lex.col = 1 then
    if ← next (· = '!'.toUInt8) then pure .directive else pure .heading
  else if ← lex.atFence then pure .codeBlock
  else if c = backquote ∧ ¬ (← next (· = backquote)) then pure .inlineCode
  else if c = '#'.toUInt8 ∧ (← next (· = '!'.toUInt8)) then pure .directive
  else if (c = '-'.toUInt8 ∨ c = '*'.toUInt8) ∧ lex.col ≤ 3 ∧ (← next (· = ' '.toUInt8)) then
    pure .listItem
  else if lex.col ≤ 4 ∧ (← lex.fluxLexerIsMetadataLine) then pure .metadata
  else if c = doubleQuote ∨ c = singleQuote then pure .string
  else if isDigit c ∨ (c = '.'.toUInt8 ∧ (← next isDigit)) then pure .number
  else if isAlpha c ∨ c = '_'.toUInt8 then pure .identifier
  else if (bytes "+-*/%=!<>&|^~?:").contains c then pure .operator
  else if (bytes "()\x7b\x7d[];,.").contains c then pure .punctuation
  else pure .text

def Scanner.scan : Scanner → FluxLexer → Except LexFault (FluxToken × FluxLexer)
  | .newline, lex => lex.fluxLexerScanNewline
  | .directive, lex => lex.fluxLexerScanDirective
  | .heading, lex => lex.fluxLexerScanHeading
  | .codeBlock, lex => lex.fluxLexerScanCodeBlock
  | .inlineCode, lex => lex.fluxLexerScanInlineCode
  | .listItem, lex => lex.fluxLexerScanListItem
  | .metadata, lex => lex.fluxLexerScanMetadata true
  | .string, lex => lex.fluxLexerScanString
  | .number, lex => lex.fluxLexerScanNumber
  | .identifier, lex => lex.fluxLexerScanIdentifier
  | .operator, lex => lex.fluxLexerScanOperator
  | .punctuation, lex => lex.fluxLexerScanPunctuation
  | .text, lex => lex.fluxLexerScanText

def fluxLexerScanNext : Except LexFault (FluxToken × FluxLexer) := do
  let lex ← lex.fluxLexerSkipWhitespaceAndComments
  if lex.sourceLen ≤ lex.pos then pure (lex.token .EOF [], lex)
  else
    let s ← lex.scanner
    s.scan lex

/-- `flux_lexer_next` with a token to fill in. -/
def fluxLexerNext : Except LexFault (FluxToken × FluxLexer) := lex.fluxLexerScanNext

end FluxLexer

end FluxOs
