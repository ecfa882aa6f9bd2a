import FluxOs.Fluxc.Peeking
import FluxOs.Fluxc.Positions

/-!
# The bounds of the lexer

A source whose length is an `int` has no token that is too long for one.  Every call on it returns, so
that no byte behind the source is read, and the text and the language tag of its token are cut to leave
room for the NUL behind them.
-/

namespace FluxOs

open Faulting

/-- The text and the language tag end with a NUL inside their buffers. -/
structure FluxToken.Terminated (tok : FluxToken) : Prop where
  text : tok.text.length < fluxTokenTextMax
  lang : tok.lang.length < 64

namespace FluxLexer

variable {lex l : FluxLexer} {k n start : Nat} {p : UInt8 → Bool} {tok : FluxToken}

/-! ## Copies that an `int` can measure -/

theorem fits_of_le (hn : n ≤ lex.sourceLen) (hlen : lex.sourceLen < 2 ^ 31) : Fits n := by
  have hint : (Int32.ofNat n).toInt = n := Int32.toInt_ofNat_of_lt (Nat.lt_of_le_of_lt hn hlen)
  rw [Fits, Int32.le_iff_toInt_le, hint]
  simp

/-- What is copied up to a place of the source is no longer than the source. -/
theorem le_of_reaches {e : Except LexFault FluxLexer} (h : Ensures noFault (Reaches lex k) e)
    (hn : (fun stop => stop.pos - start) <$> e = .ok n) : n ≤ lex.sourceLen := by
  obtain ⟨stop, rfl, hstop⟩ := exists_of_noFault h
  obtain rfl : stop.pos - start = n := Except.ok.inj hn
  have hinside := hstop.inside
  rw [hstop.sourceLen_eq] at hinside
  omega

theorem copied_le {s : Scanner} (hlt : lex.pos < lex.sourceLen) (h : s.Starts lex)
    (hn : s.copied lex = .ok n) : n ≤ lex.sourceLen := by
  have zero (h : Except.ok 0 = (Except.ok n : Except LexFault Nat)) : n ≤ lex.sourceLen := by
    obtain rfl : 0 = n := Except.ok.inj h
    exact Nat.zero_le _
  cases s with
  | newline => exact zero hn
  | string => exact zero hn
  | punctuation => exact zero hn
  | directive => exact le_of_reaches (directiveEnd_reaches h) hn
  | heading => exact le_of_reaches (headingEnd_reaches h) hn
  | codeBlock =>
    obtain ⟨body, hbody, hreach⟩ := exists_of_noFault (codeBlockBody_reaches h)
    rw [Scanner.copied, hbody] at hn
    have hend := (closingFence_spec hreach.inside).imp fun stop hstop => hreach.trans hstop.1
    exact le_of_reaches hend hn
  | inlineCode => exact le_of_reaches (inlineCodeEnd_reaches hlt) hn
  | listItem => exact le_of_reaches (lineEnd_reaches hlt) hn
  | metadata => exact le_of_reaches (advanceWhile_advances h) hn
  | number =>
    obtain ⟨⟨stop, isFloat⟩, hstop, hreach⟩ := exists_of_noFault (numberEnd_reaches h)
    rw [Scanner.copied, hstop] at hn
    exact le_of_reaches (e := .ok stop) hreach hn
  | identifier => exact le_of_reaches (advanceWhile_advances h) hn
  | operator => exact le_of_reaches (operatorEnd_reaches hlt) hn
  | text => exact le_of_reaches (textEnd_reaches h) hn

/-- Every call inside a source whose length is an `int` returns. -/
theorem exists_next (hpos : lex.pos ≤ lex.sourceLen) (hlen : lex.sourceLen < 2 ^ 31) :
    ∃ r, lex.fluxLexerNext = .ok r := by
  by_cases hclear : lex.Clear
  · obtain ⟨r, hr, -⟩ := next_of_clear hpos hclear
    exact ⟨r, hr⟩
  · obtain ⟨l, hskip, hl, hexit⟩ := exists_of_noFault (skip_spec hpos)
    by_cases hlt : l.pos < l.sourceLen
    · obtain ⟨s, hs, hstuck | hstart⟩ := exists_of_noFault (scanner_spec hexit hlt)
      · obtain ⟨tok, htok, -⟩ := next_of_stuck hskip hlt hstuck
        exact ⟨_, htok⟩
      · obtain ⟨n, hn, hscan⟩ := scan_scans hlt hstart
        have hfits := fits_of_le (copied_le hlt hstart hn) (by rwa [hl.sourceLen_eq])
        obtain ⟨r, hr, -⟩ := hscan.1 hfits
        exact ⟨r, by rw [next_of_scanner hskip hlt hs, hr]⟩
    · exact ⟨_, next_of_end hskip (Nat.not_lt.1 hlt)⟩

/-! ## The texts of the tokens -/

/-- A copy is cut to the size of a text. -/
theorem copyText_lt {text : List UInt8} (h : lex.copyText start = .ok text) :
    text.length < fluxTokenTextMax := by
  unfold copyText at h
  simp only at h
  split at h
  · cases h
  · split at h
    · cases h
    · obtain rfl := Except.ok.inj h
      have hmax : fluxTokenTextMax = fluxTokenTextMax - 1 + 1 := rfl
      rw [List.length_take]
      omega

/-- The rule of a scanner that makes a token of its copy. -/
theorem terminated_of_copy {f : List UInt8 → Except LexFault (FluxToken × FluxLexer)}
    (hf : ∀ text, Ensures anyFault (fun r => r.1.text = text ∧ r.1.lang.length < 64) (f text)) :
    Ensures anyFault (fun r => r.1.Terminated) (lex.copyText start >>= f) := by
  refine (ensures_bind _ _ _ _).2 (ensures_of_forall (fun text htext => ?_) fun _ _ => trivial)
  refine (hf text).imp fun r hr => ⟨?_, hr.2⟩
  rw [hr.1]
  exact copyText_lt htext

/-- The rule of a scanner that finds its end first. -/
theorem terminated_of_end {α : Type} {e : Except LexFault α}
    {f : α → Except LexFault (FluxToken × FluxLexer)} (hf : ∀ a, Ensures anyFault (fun r => r.1.Terminated) (f a)) :
    Ensures anyFault (fun r => r.1.Terminated) (e >>= f) :=
  (ensures_bind _ _ _ _).2 (ensures_of_forall (fun a _ => hf a) fun _ _ => trivial)

theorem empty_lang : ([] : List UInt8).length < 64 := by decide

theorem nextChar_advance {c : UInt8} (h : lex.fluxLexerNextChar = .ok (c, l)) : l.pos ≤ lex.pos + 1 := by
  unfold fluxLexerNextChar at h
  split at h
  · obtain ⟨d, -, h⟩ := bind_eq_ok.1 h
    obtain ⟨-, rfl⟩ := Prod.mk.inj (Except.ok.inj h)
    exact Nat.le_of_eq (moves_advanceOver lex d).pos
  · obtain ⟨-, rfl⟩ := Prod.mk.inj (Except.ok.inj h)
    omega

theorem length_slice_le (lex : FluxLexer) (start : Nat) : (lex.slice start).length ≤ lex.pos - start := by
  rw [slice, List.length_take]
  omega

theorem scanNewline_terminated : Ensures anyFault (fun r => r.1.Terminated) lex.fluxLexerScanNewline := by
  have hmax : fluxTokenTextMax = 2048 := rfl
  refine (ensures_bind _ _ _ _).2 (ensures_of_forall (fun r hr => ?_) fun _ _ => trivial)
  obtain ⟨c, stop⟩ := r
  have hstop := nextChar_advance hr
  refine ensures_ahead_bind.2 ((ensures_ite _ _ _ _ _).2 ⟨fun _ => ?_, fun _ => ?_⟩)
  · refine (ensures_bind _ _ _ _).2 (ensures_of_forall (fun r' hr' => ?_) fun _ _ => trivial)
    obtain ⟨d, stop'⟩ := r'
    have hstop' := nextChar_advance hr'
    have hlen := length_slice_le stop' lex.pos
    exact ⟨show (stop'.slice lex.pos).length < _ by omega, empty_lang⟩
  · have hlen := length_slice_le stop lex.pos
    exact ⟨show (stop.slice lex.pos).length < _ by omega, empty_lang⟩

/-- The loop over a string keeps the text below the size of the buffer. -/
theorem stringTurn_terminated {quote : UInt8} {s : FluxLexer × List UInt8} (h : s.2.length < fluxTokenTextMax) :
    Ensures anyFault (fun next => ∀ t, next = some t → t.2.length < fluxTokenTextMax)
      (stringTurn quote s) := by
  obtain ⟨l, text⟩ := s
  unfold stringTurn
  rw [ensures_ahead_bind, ensures_ite]
  refine ⟨fun hgo => ?_, fun _ => ?_⟩
  · have hroom : text.length < fluxTokenTextMax - 1 := of_decide_eq_true (Bool.and_eq_true_iff.1 hgo).2
    have hlen (b : UInt8) : (text ++ [b]).length < fluxTokenTextMax := by
      rw [List.length_append, List.length_singleton]
      omega
    refine (ensures_bind _ _ _ _).2 (ensures_of_forall (fun c _ => ?_) fun _ _ => trivial)
    refine (ensures_ite _ _ _ _ _).2 ⟨fun _ => ?_, fun _ => ?_⟩
    · refine (ensures_bind _ _ _ _).2 (ensures_of_forall (fun e _ => ?_) fun _ _ => trivial)
      refine (ensures_ite _ _ _ _ _).2 ⟨fun _ => ?_, fun _ => ?_⟩
      · refine (ensures_bind _ _ _ _).2 (ensures_of_forall (fun stop _ => ?_) fun _ _ => trivial)
        rintro t ⟨⟩
        exact hlen _
      · rintro t ⟨⟩
        exact hlen _
    · rintro t ⟨⟩
      exact hlen c
  · rintro t ⟨⟩

theorem scanString_terminated : Ensures anyFault (fun r => r.1.Terminated) lex.fluxLexerScanString := by
  have hend : Ensures anyFault (fun t => t.2.length < fluxTokenTextMax) lex.stringEnd := by
    refine (ensures_bind _ _ _ _).2 (ensures_of_forall (fun quote _ => ?_) fun _ _ => trivial)
    exact ensures_loop_of_keeps (I := fun t : FluxLexer × List UInt8 => t.2.length < fluxTokenTextMax) trivial
      (fun t ht => stringTurn_terminated ht) (Nat.succ_pos _)
  exact hend.bind fun t ht => ⟨ht, empty_lang⟩

/-- A loop with a counter goes over at most so many bytes. -/
theorem advanceAtMost_le (lex : FluxLexer) (k : Nat) (p : UInt8 → Bool) :
    Ensures anyFault (fun l => l.pos ≤ lex.pos + k) (lex.advanceAtMost k p) := by
  refine ensures_loop_of_keeps (I := fun l : FluxLexer => l.pos ≤ lex.pos + k) trivial (fun l hl => ?_)
    (Nat.le_add_right _ _)
  rw [ensures_ahead_bind, ensures_ite]
  refine ⟨fun hgo => ?_, fun _ => ?_⟩
  · have hlt : l.pos - lex.pos < k := of_decide_eq_true (Bool.and_eq_true_iff.1 hgo).2
    rintro t ⟨⟩
    show l.pos + 1 ≤ lex.pos + k
    omega
  · rintro t ⟨⟩

theorem scanCodeBlock_terminated : Ensures anyFault (fun r => r.1.Terminated) lex.fluxLexerScanCodeBlock := by
  refine (advanceAtMost_le (lex.advance 3) 63 _).bind fun lang hlang => ?_
  refine terminated_of_end fun body => terminated_of_end fun stop => terminated_of_copy fun text => ?_
  refine (ensures_bind _ _ _ _).2 (ensures_of_forall (fun after _ => ⟨rfl, ?_⟩) fun _ _ => trivial)
  have hlen := length_slice_le lang (lex.pos + 3)
  have hle : lang.pos ≤ lex.pos + 3 + 63 := hlang
  show (lang.slice (lex.pos + 3)).length < 64
  omega

theorem scan_terminated (s : Scanner) (lex : FluxLexer) :
    Ensures anyFault (fun r => r.1.Terminated) (s.scan lex) := by
  cases s with
  | newline => exact scanNewline_terminated
  | directive => exact terminated_of_end fun stop => terminated_of_copy fun text => ⟨rfl, empty_lang⟩
  | heading =>
    exact terminated_of_end fun mark => terminated_of_end fun stop =>
      terminated_of_copy fun text => ⟨rfl, empty_lang⟩
  | codeBlock => exact scanCodeBlock_terminated
  | inlineCode => exact terminated_of_end fun stop => terminated_of_copy fun text => ⟨rfl, empty_lang⟩
  | listItem => exact terminated_of_end fun stop => terminated_of_copy fun text => ⟨rfl, empty_lang⟩
  | metadata => exact terminated_of_end fun stop => terminated_of_copy fun text => ⟨rfl, empty_lang⟩
  | string => exact scanString_terminated
  | number => exact terminated_of_end fun r => terminated_of_copy fun text => ⟨rfl, empty_lang⟩
  | identifier => exact terminated_of_end fun stop => terminated_of_copy fun text => ⟨rfl, empty_lang⟩
  | operator => exact terminated_of_end fun stop => terminated_of_copy fun text => ⟨rfl, empty_lang⟩
  | punctuation =>
    refine (ensures_bind _ _ _ _).2 (ensures_of_forall (fun c _ => ?_) fun _ _ => trivial)
    exact ⟨show 1 < fluxTokenTextMax by decide, empty_lang⟩
  | text => exact terminated_of_end fun stop => terminated_of_copy fun text => ⟨rfl, empty_lang⟩

theorem next_terminated (lex : FluxLexer) :
    Ensures anyFault (fun r => r.1.Terminated) lex.fluxLexerNext := by
  refine (ensures_bind _ _ _ _).2 (ensures_of_forall (fun l _ => ?_) fun _ _ => trivial)
  refine (ensures_ite _ _ _ _ _).2 ⟨fun _ => ⟨Nat.succ_pos _, empty_lang⟩, fun _ => ?_⟩
  exact terminated_of_end fun s => scan_terminated s l

/-! ## Runs of calls -/

/-- Every call returns a token with its NULs, and stays in the source. -/
theorem run_terminated (hpos : lex.pos ≤ lex.sourceLen) (hlen : lex.sourceLen < 2 ^ 31) (call : LexerCall) :
    ∃ r, call.run lex = .ok r ∧ Reaches lex 0 r.2 ∧ r.1.Terminated := by
  obtain ⟨⟨tok, l⟩, hr⟩ := exists_next hpos hlen
  have htok := (next_terminated lex).of_ok hr
  cases call with
  | next => exact ⟨_, hr, reaches_of_next hpos hr, htok⟩
  | peek =>
    refine ⟨(tok, lex), ?_, Reaches.refl hpos, htok⟩
    show lex.fluxLexerPeek = _
    rw [peek_eq hpos, hr]
    rfl

theorem runCalls_terminated (hpos : lex.pos ≤ lex.sourceLen) (hlen : lex.sourceLen < 2 ^ 31)
    (calls : List LexerCall) :
    ∃ r, lex.runCalls calls = .ok r ∧ Reaches lex 0 r.2 ∧ ∀ tok ∈ r.1, tok.Terminated := by
  induction calls generalizing lex with
  | nil => exact ⟨_, rfl, Reaches.refl hpos, by simp⟩
  | cons call calls ih =>
    obtain ⟨⟨tok, l⟩, hcall, hl, htok⟩ := run_terminated hpos hlen call
    obtain ⟨r, hr, hreach, htoks⟩ := ih hl.inside (by rwa [hl.sourceLen_eq])
    exact ⟨_, runCalls_cons hcall hr, hl.trans hreach, List.forall_mem_cons.2 ⟨htok, htoks⟩⟩

end FluxLexer

open FluxLexer in
/-- Any calls on a source whose length is an `int` return: they read no byte behind the source, stay in
it, and end the texts and language tags of their tokens with a NUL. -/
theorem lexer_bounded (source : List UInt8) (hlen : source.length < 2 ^ 31) (calls : List LexerCall) :
    ∃ lex toks l, fluxLexerInit source = .ok lex ∧ lex.runCalls calls = .ok (toks, l) ∧
      l.pos ≤ source.length ∧ ∀ tok ∈ toks, tok.Terminated := by
  obtain ⟨lex, hinit, hsource, hpos⟩ := exists_of_noFault (fluxLexerInit_spec source)
  have hlex : lex.sourceLen = source.length := congrArg List.length hsource
  obtain ⟨⟨toks, l⟩, hr, hreach, htoks⟩ := runCalls_terminated (by rwa [hlex]) (by rwa [hlex]) calls
  refine ⟨lex, toks, l, hinit, hr, ?_, htoks⟩
  rw [← hlex, ← hreach.sourceLen_eq]
  exact hreach.inside

/-- A string that the source ends in. -/
theorem lexer_bounded_openString : ∃ lex toks l, fluxLexerInit [34, 97, 92] = .ok lex ∧
    lex.runCalls [.peek, .next, .next] = .ok (toks, l) ∧
    l.pos ≤ ([34, 97, 92] : List UInt8).length ∧ ∀ tok ∈ toks, tok.Terminated :=
  lexer_bounded [34, 97, 92] (by decide) [.peek, .next, .next]

end FluxOs
