import FluxOs.Fluxc.Progress

/-!
# Tokenizing a source

Calls of `flux_lexer_next` on a source of any length.  They all go forward, and the end of the source is
reached, exactly when no call starts where the lexer is stuck or in front of a text that an `int` cannot
measure.
-/

namespace FluxOs

open Faulting

namespace FluxLexer

variable {lex l : FluxLexer}

/-- The lexer after `n` calls of `flux_lexer_next`. -/
def fluxLexerCalls (lex : FluxLexer) : Nat → Except LexFault FluxLexer
  | 0 => pure lex
  | n + 1 => do
    let l ← lex.fluxLexerCalls n
    let (_, l) ← l.fluxLexerNext
    pure l

/-- Behind the blanks and comments in front of it, the lexer is not stuck, and the text that it copies is
not too long. -/
def Clear (lex : FluxLexer) : Prop :=
  ∀ l, lex.fluxLexerSkipWhitespaceAndComments = .ok l → l.pos < l.sourceLen →
    ¬ l.Stuck ∧ ∀ s n, l.scanner = .ok s → s.copied l = .ok n → Fits n

/-! ## One call -/

/-- A call at the end of the source returns `TOK_EOF`. -/
theorem next_of_end (hskip : lex.fluxLexerSkipWhitespaceAndComments = .ok l)
    (hend : l.sourceLen ≤ l.pos) : lex.fluxLexerNext = .ok (l.token .EOF [], l) := by
  unfold fluxLexerNext fluxLexerScanNext
  rw [hskip]
  exact if_pos hend

theorem next_of_scanner {s : Scanner} (hskip : lex.fluxLexerSkipWhitespaceAndComments = .ok l)
    (hlt : l.pos < l.sourceLen) (hs : l.scanner = .ok s) : lex.fluxLexerNext = s.scan l := by
  unfold fluxLexerNext fluxLexerScanNext
  rw [hskip]
  show (if _ then _ else _) = _
  rw [if_neg (Nat.not_le.2 hlt), hs]
  rfl

/-- What a call returns from a clear place. -/
theorem next_of_clear (hpos : lex.pos ≤ lex.sourceLen) (h : lex.Clear) :
    ∃ r, lex.fluxLexerNext = .ok r ∧ Reaches lex 0 r.2 ∧ (r.1.type ≠ .EOF → Reaches lex 1 r.2) := by
  obtain ⟨l, hskip, hl, hexit⟩ := exists_of_noFault (skip_spec hpos)
  by_cases hlt : l.pos < l.sourceLen
  · obtain ⟨hclear, hfits⟩ := h l hskip hlt
    obtain ⟨s, hs, hstart⟩ := exists_of_noFault (scanner_spec hexit hlt)
    obtain ⟨n, hn, hscan⟩ := scan_scans hlt (hstart.resolve_left hclear)
    obtain ⟨r, hr, htype, hreach⟩ := hscan.1 (hfits s n hs hn)
    refine ⟨r, by rw [next_of_scanner hskip hlt hs, hr], ?_, fun _ => ?_⟩
    · exact (hl.trans hreach).mono (by omega)
    · exact (hl.trans hreach).mono (by omega)
  · exact ⟨_, next_of_end hskip (Nat.not_lt.1 hlt), hl, fun h => absurd rfl h⟩

/-- A stuck lexer returns an empty text again and again. -/
theorem next_of_stuck (hskip : lex.fluxLexerSkipWhitespaceAndComments = .ok l)
    (hlt : l.pos < l.sourceLen) (hstuck : l.Stuck) :
    ∃ tok, lex.fluxLexerNext = .ok (tok, l) ∧ tok.type = .TEXT := by
  obtain ⟨text, htext⟩ := scanText_of_stuck hstuck (Nat.le_of_lt hlt)
  exact ⟨_, (next_of_scanner hskip hlt (scanner_of_stuck hstuck)).trans htext, rfl⟩

/-- A call from a place that is not clear faults, or leaves the lexer stuck. -/
theorem next_of_not_clear (hpos : lex.pos ≤ lex.sourceLen) (h : ¬ lex.Clear) :
    (∃ e, lex.fluxLexerNext = .error e) ∨ ∃ tok l, lex.fluxLexerNext = .ok (tok, l) ∧
      Reaches lex 0 l ∧ ∃ tok', l.fluxLexerNext = .ok (tok', l) ∧ tok'.type = .TEXT := by
  obtain ⟨l, hskip, hl, hexit⟩ := exists_of_noFault (skip_spec hpos)
  simp only [Clear, not_forall] at h
  obtain ⟨l', hskip', hlt, h⟩ := h
  obtain rfl : l = l' := Except.ok.inj (hskip.symm.trans hskip')
  by_cases hstuck : l.Stuck
  · obtain ⟨tok, htok, -⟩ := next_of_stuck hskip hlt hstuck
    obtain ⟨tok', htok', htype⟩ := next_of_stuck (skip_of_exit hexit) hlt hstuck
    exact .inr ⟨tok, l, htok, hl, tok', htok', htype⟩
  · obtain ⟨s, hs, hstart⟩ := exists_of_noFault (scanner_spec hexit hlt)
    obtain ⟨n, hn, hscan⟩ := scan_scans hlt (hstart.resolve_left hstuck)
    have hfits : ¬ Fits n := fun hfits => h ⟨hstuck, fun s' n' hs' hn' => by
      obtain rfl : s = s' := Except.ok.inj (hs.symm.trans hs')
      obtain rfl : n = n' := Except.ok.inj (hn.symm.trans hn')
      exact hfits⟩
    obtain ⟨e, he⟩ := hscan.2 hfits
    exact .inl ⟨e, by rw [next_of_scanner hskip hlt hs, he]⟩

/-- No call leaves the source. -/
theorem reaches_of_next {tok : FluxToken} (hpos : lex.pos ≤ lex.sourceLen)
    (h : lex.fluxLexerNext = .ok (tok, l)) : Reaches lex 0 l := by
  by_cases hclear : lex.Clear
  · obtain ⟨r, hr, hreach, -⟩ := next_of_clear hpos hclear
    obtain rfl : r = (tok, l) := Except.ok.inj (hr.symm.trans h)
    exact hreach
  · rcases next_of_not_clear hpos hclear with ⟨e, he⟩ | ⟨tok', l', htok, hreach, -⟩
    · exact nomatch he.symm.trans h
    · obtain ⟨-, rfl⟩ : tok' = tok ∧ l' = l := Prod.mk.inj (Except.ok.inj (htok.symm.trans h))
      exact hreach

/-! ## Runs of calls -/

theorem calls_succ {n : Nat} {tok : FluxToken} {l' : FluxLexer} (h : lex.fluxLexerCalls n = .ok l)
    (hnext : l.fluxLexerNext = .ok (tok, l')) : lex.fluxLexerCalls (n + 1) = .ok l' := by
  rw [fluxLexerCalls, h]
  show (l.fluxLexerNext >>= _) = _
  rw [hnext]
  rfl

theorem reaches_of_calls (hpos : lex.pos ≤ lex.sourceLen) {n : Nat}
    (h : lex.fluxLexerCalls n = .ok l) : Reaches lex 0 l := by
  induction n generalizing l with
  | zero =>
    cases h
    exact Reaches.refl hpos
  | succ n ih =>
    obtain ⟨l', hl', h⟩ := bind_eq_ok.1 h
    obtain ⟨⟨tok, l''⟩, hnext, h⟩ := bind_eq_ok.1 h
    cases h
    have hreach := ih hl'
    exact hreach.trans (reaches_of_next hreach.inside hnext)

/-- The `n`-th call starts at least `n` bytes behind the first, unless one before it returned
`TOK_EOF`. -/
theorem calls_advance (hpos : lex.pos ≤ lex.sourceLen)
    (hclear : ∀ n l, lex.fluxLexerCalls n = .ok l → l.Clear) (n : Nat)
    (hgo : ∀ k < n, ∀ l tok l', lex.fluxLexerCalls k = .ok l → l.fluxLexerNext = .ok (tok, l') →
      tok.type ≠ .EOF) : ∃ l, lex.fluxLexerCalls n = .ok l ∧ Reaches lex n l := by
  induction n with
  | zero => exact ⟨lex, rfl, Reaches.refl hpos⟩
  | succ n ih =>
    obtain ⟨l, hl, hreach⟩ := ih fun k hk => hgo k (Nat.lt_succ_of_lt hk)
    obtain ⟨r, hr, -, hnext⟩ := next_of_clear hreach.inside (hclear n l hl)
    exact ⟨r.2, calls_succ hl hr,
      hreach.trans (hnext (hgo n (Nat.lt_succ_self n) l r.1 r.2 hl hr))⟩

end FluxLexer

open FluxLexer

/-- Every call of `flux_lexer_next` on the source returns, each that does not return `TOK_EOF` consumes a
byte, and one of the first `source_len + 1` returns `TOK_EOF`. -/
def Tokenizes (source : List UInt8) : Prop :=
  ∃ lex, fluxLexerInit source = .ok lex ∧
    (∀ n l, lex.fluxLexerCalls n = .ok l →
      ∃ tok l', l.fluxLexerNext = .ok (tok, l') ∧ (tok.type ≠ .EOF → l.pos < l'.pos)) ∧
    ∃ n ≤ source.length, ∃ l tok l', lex.fluxLexerCalls n = .ok l ∧
      l.fluxLexerNext = .ok (tok, l') ∧ tok.type = .EOF

/-- A source is tokenized exactly when every call on it starts at a clear place. -/
theorem tokenizes_iff (source : List UInt8) :
    Tokenizes source ↔
      ∀ lex n l, fluxLexerInit source = .ok lex → lex.fluxLexerCalls n = .ok l → l.Clear := by
  obtain ⟨lex, hinit, hsource, hpos⟩ := exists_of_noFault (fluxLexerInit_spec source)
  have hpos : lex.pos ≤ lex.sourceLen := by rwa [sourceLen, hsource]
  constructor
  · rintro ⟨lex', hinit', hcalls, -⟩ lex'' n l hinit'' hl
    obtain rfl : lex = lex' := Except.ok.inj (hinit.symm.trans hinit')
    obtain rfl : lex = lex'' := Except.ok.inj (hinit.symm.trans hinit'')
    by_contra hclear
    rcases next_of_not_clear (reaches_of_calls hpos hl).inside hclear with
      ⟨e, he⟩ | ⟨tok, l', hnext, -, tok', hnext', htype⟩
    · obtain ⟨tok, l', hok, -⟩ := hcalls n l hl
      rw [he] at hok
      cases hok
    · obtain ⟨tok'', l'', hok, hforward⟩ := hcalls (n + 1) l' (calls_succ hl hnext)
      obtain ⟨rfl, rfl⟩ := Prod.mk.inj (Except.ok.inj (hok.symm.trans hnext'))
      exact Nat.lt_irrefl _ (hforward (by rw [htype]; decide))
  · intro hclear
    have hclear n l (hl : lex.fluxLexerCalls n = .ok l) : l.Clear := hclear lex n l hinit hl
    refine ⟨lex, hinit, fun n l hl => ?_, ?_⟩
    · obtain ⟨r, hr, -, hnext⟩ := next_of_clear (reaches_of_calls hpos hl).inside (hclear n l hl)
      exact ⟨r.1, r.2, hr, fun htype => (hnext htype).forward⟩
    · -- otherwise the last of these calls would start behind the end of the source
      by_contra hnone
      obtain ⟨l, -, hreach⟩ := calls_advance hpos hclear (source.length + 1)
        fun k hk l tok l' hl hnext htype =>
          hnone ⟨k, Nat.le_of_lt_succ hk, l, tok, l', hl, hnext, htype⟩
      have hforward := hreach.forward
      have hinside := hreach.inside
      rw [hreach.sourceLen_eq, sourceLen, hsource] at hinside
      omega

/-- The text `a # b`: the lexer stops in front of the `#` for ever. -/
theorem hash_not_tokenized : ¬ Tokenizes (bytes "a # b") := by
  rintro ⟨lex, hinit, hcalls, -⟩
  obtain rfl : _ = lex := Except.ok.inj
    ((show fluxLexerInit (bytes "a # b") = .ok ⟨bytes "a # b", 0, 1, 1, 0⟩ by decide).symm.trans hinit)
  have hstuck : ∃ tok, FluxLexer.fluxLexerNext ⟨bytes "a # b", 2, 1, 3, 0⟩ =
      .ok (tok, ⟨bytes "a # b", 2, 1, 3, 0⟩) ∧ tok.type ≠ .EOF :=
    ⟨⟨.TEXT, 1, 3, [], 0, [], .int 0⟩, by decide, by decide⟩
  obtain ⟨tok, hnext, htype⟩ := hstuck
  obtain ⟨tok', l', hnext', hforward⟩ := hcalls 2 ⟨bytes "a # b", 2, 1, 3, 0⟩ (by decide)
  obtain ⟨rfl, rfl⟩ := Prod.mk.inj (Except.ok.inj (hnext.symm.trans hnext'))
  exact Nat.lt_irrefl _ (hforward htype)

end FluxOs
