import FluxOs.Fluxc.Tokenizing

/-!
# Peeking at the next token

`flux_lexer_peek` (`src/fluxc/lexer.c`) scans a token and puts back the position, the line, the column
and the nesting depth.  No function scans with any other field of the lexer in its hands: the fields
`in_code_fence` and `fence_lang` are used nowhere, and `in_frontmatter` only by the initialization.
-/

namespace FluxOs

open Faulting

namespace FluxLexer

variable (lex : FluxLexer)

/-- `flux_lexer_peek` with a token to fill in. -/
def fluxLexerPeek : Except LexFault (FluxToken × FluxLexer) := do
  let (tok, stop) ← lex.fluxLexerScanNext
  pure (tok, { stop with pos := lex.pos, line := lex.line, col := lex.col, parenDepth := lex.parenDepth })

end FluxLexer

/-- The calls that fill in a token. -/
inductive LexerCall
  | next
  | peek
  deriving DecidableEq, Repr

def LexerCall.run : LexerCall → FluxLexer → Except LexFault (FluxToken × FluxLexer)
  | .next, lex => lex.fluxLexerNext
  | .peek, lex => lex.fluxLexerPeek

/-- The tokens that some calls fill in, and the lexer behind them. -/
def FluxLexer.runCalls (lex : FluxLexer) : List LexerCall → Except LexFault (List FluxToken × FluxLexer)
  | [] => pure ([], lex)
  | call :: calls => do
    let (tok, l) ← call.run lex
    let (toks, l) ← l.runCalls calls
    pure (tok :: toks, l)

namespace FluxLexer

variable {lex l : FluxLexer} {call : LexerCall} {calls : List LexerCall} {tok : FluxToken} {toks : List FluxToken}

/-- Peeking inside the source leaves the lexer as it is. -/
theorem peek_eq (hpos : lex.pos ≤ lex.sourceLen) :
    lex.fluxLexerPeek = (fun r => (r.1, lex)) <$> lex.fluxLexerNext := by
  unfold fluxLexerPeek
  cases hscan : lex.fluxLexerNext with
  | error e =>
    rw [show lex.fluxLexerScanNext = .error e from hscan]
    rfl
  | ok r =>
    have hsource : r.2.source = lex.source := (reaches_of_next hpos hscan).source
    rw [show lex.fluxLexerScanNext = .ok r from hscan]
    obtain ⟨tok, stop⟩ := r
    obtain ⟨source, pos, line, col, parenDepth⟩ := lex
    obtain rfl : stop.source = source := hsource
    rfl

/-- A call stays in the source. -/
theorem reaches_of_run (hpos : lex.pos ≤ lex.sourceLen) (h : call.run lex = .ok (tok, l)) :
    Reaches lex 0 l := by
  cases call with
  | next => exact reaches_of_next hpos h
  | peek =>
    have hpeek : lex.fluxLexerPeek = .ok (tok, l) := h
    rw [peek_eq hpos] at hpeek
    cases hnext : lex.fluxLexerNext with
    | error e =>
      rw [hnext] at hpeek
      cases hpeek
    | ok r =>
      rw [hnext] at hpeek
      obtain ⟨-, rfl⟩ := Prod.mk.inj (Except.ok.inj hpeek)
      exact Reaches.refl hpos

theorem runCalls_cons {r : List FluxToken × FluxLexer} (h : call.run lex = .ok (tok, l))
    (hcalls : l.runCalls calls = .ok r) : lex.runCalls (call :: calls) = .ok (tok :: r.1, r.2) := by
  rw [runCalls, h]
  show (l.runCalls calls >>= _) = _
  rw [hcalls]
  rfl

theorem reaches_of_runCalls (hpos : lex.pos ≤ lex.sourceLen) (h : lex.runCalls calls = .ok (toks, l)) :
    Reaches lex 0 l := by
  induction calls generalizing lex toks with
  | nil =>
    obtain ⟨-, rfl⟩ := Prod.mk.inj (Except.ok.inj h)
    exact Reaches.refl hpos
  | cons call calls ih =>
    obtain ⟨⟨tok, l'⟩, hcall, h⟩ := bind_eq_ok.1 h
    obtain ⟨⟨toks', l''⟩, hcalls, h⟩ := bind_eq_ok.1 h
    obtain ⟨-, rfl⟩ := Prod.mk.inj (Except.ok.inj h)
    have hreach := reaches_of_run hpos hcall
    exact hreach.trans (ih hreach.inside hcalls)

/-- Any number of peeks in a row, and the call behind them, all return the same token. -/
theorem runCalls_peeks (hpos : lex.pos ≤ lex.sourceLen) (hnext : lex.fluxLexerNext = .ok (tok, l)) (n : Nat) :
    lex.runCalls (List.replicate n .peek ++ [.next]) = .ok (List.replicate (n + 1) tok, l) := by
  induction n with
  | zero => exact runCalls_cons (r := ([], l)) hnext rfl
  | succ n ih =>
    have hpeek : LexerCall.run .peek lex = .ok (tok, lex) := by
      show lex.fluxLexerPeek = _
      rw [peek_eq hpos, hnext]
      rfl
    exact runCalls_cons hpeek ih

end FluxLexer

open FluxLexer in
/-- In every state that calls reach, peeking leaves the lexer as it is and fills in the token that the
next call fills in, also behind other peeks. -/
theorem peek_of_reachable {source : List UInt8} {lex lex' : FluxLexer} {calls : List LexerCall}
    {toks : List FluxToken} (hinit : fluxLexerInit source = .ok lex)
    (hcalls : lex.runCalls calls = .ok (toks, lex')) :
    lex'.fluxLexerPeek = (fun r => (r.1, lex')) <$> lex'.fluxLexerNext ∧
      ∀ tok l n, lex'.fluxLexerNext = .ok (tok, l) →
        lex'.runCalls (List.replicate n .peek ++ [.next]) = .ok (List.replicate (n + 1) tok, l) := by
  obtain ⟨hsource, hpos⟩ := (fluxLexerInit_spec source).of_ok hinit
  have hinside : lex.pos ≤ lex.sourceLen := by rwa [sourceLen, hsource]
  have hreach := reaches_of_runCalls hinside hcalls
  exact ⟨peek_eq hreach.inside, fun tok l n hnext => runCalls_peeks hreach.inside hnext n⟩

/-- The lexer behind the bracket of `(a`. -/
theorem peek_of_reachable_paren :
    (FluxLexer.fluxLexerPeek ⟨bytes "(a", 1, 1, 2, 1⟩ =
      (fun r => (r.1, ⟨bytes "(a", 1, 1, 2, 1⟩)) <$> FluxLexer.fluxLexerNext ⟨bytes "(a", 1, 1, 2, 1⟩) ∧
    ∀ tok l n, FluxLexer.fluxLexerNext ⟨bytes "(a", 1, 1, 2, 1⟩ = .ok (tok, l) →
      FluxLexer.runCalls ⟨bytes "(a", 1, 1, 2, 1⟩ (List.replicate n .peek ++ [.next]) =
        .ok (List.replicate (n + 1) tok, l) := by
  have hinit : fluxLexerInit (bytes "(a") = .ok ⟨bytes "(a", 0, 1, 1, 0⟩ := by decide
  have hcall : FluxLexer.runCalls ⟨bytes "(a", 0, 1, 1, 0⟩ [.next] =
      .ok ([⟨.PUNCTUATION, 1, 1, [40], 0, [], .int 0⟩], ⟨bytes "(a", 1, 1, 2, 1⟩) := by decide
  exact peek_of_reachable hinit hcall

end FluxOs
