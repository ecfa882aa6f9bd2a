import FluxOs.Fluxc.LexerRules
import FluxOs.Fluxc.Parser

/-!
# The sections of a document and of its module

What `flux_parser_parse` should return for a FLUX.MD document: a module with one child for each recognised
section, in order and with its name.  A parser that is set up through `flux_parser_init` and
`flux_parser_set_lexer` has no token buffer, so every token looks like `TOK_EOF` to it, and the module has
no children at all.
-/

namespace FluxOs

open Faulting

/-! ## The sections of a document -/

/-- A recognised section: its kind and its name. -/
structure Section where
  kind : AstNodeType
  name : List UInt8
  deriving DecidableEq, Repr

/-- The trimmed text, without a bound on its length. -/
def trimmed (s : List UInt8) : List UInt8 := (s.dropWhile isTrimmed).rdropWhile isTrimmed

/-- The text behind the first of the markers that occurs in the heading. -/
def behindMarker (heading : List UInt8) : List String → List UInt8
  | [] => heading
  | marker :: markers =>
    match strstr heading (bytes marker) with
    | some s => s.drop (bytes marker).length
    | none => behindMarker heading markers

/-- The name that a heading gives to its section. -/
def sectionTitle (heading : List UInt8) : AstNodeType → List UInt8
  | .FUNCTION => trimmed ((behindMarker heading ["fn ", "function "]).takeWhile (· ≠ '('.toUInt8))
  | .AGENT_OP => trimmed (behindMarker heading ["agent:", "agent "])
  | .TILE => trimmed (behindMarker heading ["tile:", "tile "])
  | .REGION => trimmed (behindMarker heading ["region:", "region "])
  | .IMPORT => trimmed (behindMarker heading ["import:", "import "])
  | .EXPORT => trimmed (behindMarker heading ["export:", "export "])
  | _ => []

/-- The section that a token opens. -/
def FluxToken.section? (tok : FluxToken) : Option Section :=
  if tok.type = .HEADING ∧ tok.headingLevel = 2 then
    (sectionKind (cString tok.text)).map fun kind => ⟨kind, sectionTitle (cString tok.text) kind⟩
  else none

/-- The tokens of the first `n` calls of `flux_lexer_next`, up to `TOK_EOF`. -/
def FluxLexer.tokens (lex : FluxLexer) : Nat → List FluxToken
  | 0 => []
  | n + 1 =>
    match lex.fluxLexerNext with
    | .ok (tok, l) => if tok.type = .EOF then [] else tok :: l.tokens n
    | .error _ => []

/-- The recognised sections of a document.  A document of `n` bytes has at most `n` tokens, unless the
lexer gets stuck, and then there are no more headings. -/
def documentSections (source : List UInt8) : List Section :=
  match fluxLexerInit source with
  | .ok lex => (lex.tokens (source.length + 1)).filterMap FluxToken.section?
  | .error _ => []

/-! ## The sections of a module -/

/-- The section that a node stands for. -/
def AstNode.section? (node : AstNode) : Option Section :=
  if node.fields.type ∈ [.FUNCTION, .AGENT_OP, .TILE, .REGION, .EXPORT] then
    some ⟨node.fields.type, node.fields.name⟩
  else if node.fields.type = .IMPORT then some ⟨.IMPORT, node.fields.importPath⟩
  else none

/-- The sections of the module are those of the document; some may be missing when an error is
recorded. -/
def KeepsSections (source : List UInt8) (module : AstNode) (numErrors : Nat) : Prop :=
  let kept := module.children.filterMap AstNode.section?
  kept = documentSections source ∨ (kept.Sublist (documentSections source) ∧ 0 < numErrors)

/-- The parser that `flux_parser_init` and `flux_parser_set_lexer` set up on a lexer. -/
def parserOn (lex : FluxLexer) : FluxParser FluxLexer :=
  (fluxParserInit FluxLexer).fluxParserSetLexer lex fluxLexerFns

/-- The parse of the document returns a module with its sections. -/
def ParsesSections (source : List UInt8) : Prop :=
  ∃ lex fuel module p, fluxLexerInit source = .ok lex ∧
    (parserOn lex).fluxParserParse fuel = .ok (some module, p) ∧
    KeepsSections source module p.numErrors

/-! ## Parsing without a token buffer -/

section

variable {L : Type} {p : FluxParser L}

theorem parserCheck_of_no_buffer (h : p.peekTok = none) (type : TokenType) :
    p.parserCheck type = decide (type = .EOF) := by
  unfold FluxParser.parserCheck FluxParser.parserPeekType
  rw [h]
  cases type <;> rfl

/-- Without a token buffer the loop over the sections of a module ends at once. -/
theorem moduleLoop_of_no_buffer (h : p.peekTok = none) (fuel n : Nat) (module : AstNode) :
    FluxParser.loop (n + 1) (FluxParser.moduleTurn fuel) (p, module) = .ok (p, module) := by
  refine loop_of_none ?_
  show (if _ then _ else _) = _
  rw [if_pos (by rw [parserCheck_of_no_buffer h]; rfl)]
  rfl

end

/-- The parse returns a module without children, whatever the document is. -/
theorem fluxParserParse_parserOn (lex : FluxLexer) (n : Nat) :
    (parserOn lex).fluxParserParse (n + 1) =
      .ok (some (.mk { type := .MODULE, line := lex.line, name := bytes "unnamed" } []),
        { parserOn lex with pool := 1 }) := by
  have hnext : FluxParser.parserNext { parserOn lex with pool := 0, numErrors := 0 } =
      .ok (parserOn lex) := rfl
  have hheading : (parserOn lex).parseModuleHeading (n + 1) = .ok (bytes "unnamed", parserOn lex) := rfl
  refine bind_eq_ok.2 ⟨_, hnext, bind_eq_ok.2 ⟨_, hheading, ?_⟩⟩
  exact bind_eq_ok.2 ⟨_, moduleLoop_of_no_buffer rfl (n + 1) n _, rfl⟩

/-- A parse that ends returns that module. -/
theorem children_of_parse {lex : FluxLexer} {fuel : Nat} {module : AstNode} {p : FluxParser FluxLexer}
    (h : (parserOn lex).fluxParserParse fuel = .ok (some module, p)) :
    module.children = [] ∧ p.numErrors = 0 := by
  cases fuel with
  | zero => exact nomatch h
  | succ n =>
    rw [fluxParserParse_parserOn] at h
    obtain ⟨hmodule, rfl⟩ := Prod.mk.inj (Except.ok.inj h)
    obtain rfl := Option.some.inj hmodule
    exact ⟨rfl, rfl⟩

/-- A module without children and errors has the sections of a document that has none. -/
theorem keepsSections_iff {source : List UInt8} {module : AstNode} (h : module.children = []) :
    KeepsSections source module 0 ↔ documentSections source = [] := by
  unfold KeepsSections
  rw [h]
  exact ⟨fun h => h.elim Eq.symm fun h => absurd h.2 (Nat.lt_irrefl 0), fun h => .inl h.symm⟩

/-- The module of a document has its sections exactly when there are none. -/
theorem parsesSections_iff (source : List UInt8) :
    ParsesSections source ↔ documentSections source = [] := by
  constructor
  · rintro ⟨lex, fuel, module, p, -, hparse, hkeeps⟩
    obtain ⟨hchildren, herrors⟩ := children_of_parse hparse
    rw [herrors] at hkeeps
    exact (keepsSections_iff hchildren).1 hkeeps
  · intro h
    obtain ⟨lex, hinit, -⟩ := FluxLexer.exists_of_noFault (fluxLexerInit_spec source)
    exact ⟨lex, 1, _, _, hinit, fluxParserParse_parserOn lex 0, (keepsSections_iff rfl).2 h⟩

/-- The agent section of this document is not in the module. -/
theorem agent_section_dropped : ¬ ParsesSections (bytes "# fleet\n## agent: scout\n") := by
  rintro ⟨lex, fuel, module, p, -, hparse, hkeeps⟩
  obtain ⟨hchildren, herrors⟩ := children_of_parse hparse
  rw [herrors, keepsSections_iff hchildren] at hkeeps
  exact absurd hkeeps (by decide)

example : documentSections (bytes "# fleet\n## agent: scout\n## fn go(n: i32)\n") =
    [⟨.AGENT_OP, bytes "scout"⟩, ⟨.FUNCTION, bytes "go"⟩] := by
  decide

end FluxOs
