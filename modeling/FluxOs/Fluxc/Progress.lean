import FluxOs.Fluxc.LexerRules

/-!
# Progress of the lexer

A call of `flux_lexer_next` that does not return `TOK_EOF` should consume a byte.  `Stuck` describes the
two places where the text scanner is chosen but stops at once: a `#` that is neither in the first column
nor followed by `!`, and two backquotes that are not three.  Everywhere else a call goes forward, so the
end of the source is reached unless a call starts at such a place.
-/

namespace FluxOs

open Faulting

namespace FluxLexer

variable {lex l : FluxLexer} {c : UInt8} {n start : Nat}

/-- The lexer stands where no scanner consumes a byte. -/
def Stuck (lex : FluxLexer) : Prop :=
  (lex.source[lex.pos]? = some '#'.toUInt8 ∧ lex.col ≠ 1 ∧
    lex.source[lex.pos + 1]? ≠ some '!'.toUInt8) ∨
  (lex.source[lex.pos]? = some backquote ∧ lex.source[lex.pos + 1]? = some backquote ∧
    lex.source[lex.pos + 2]? ≠ some backquote)

instance (lex : FluxLexer) : Decidable lex.Stuck := inferInstanceAs (Decidable (_ ∨ _))

/-- A number of bytes is no negative `int`. -/
def Fits (n : Nat) : Prop := 0 ≤ Int32.ofNat n

instance (n : Nat) : Decidable (Fits n) := inferInstanceAs (Decidable (_ ≤ _))

/-- The number of bytes that the scanner copies into its token. -/
def Scanner.copied : Scanner → FluxLexer → Except LexFault Nat
  | .newline, _ | .string, _ | .punctuation, _ => pure 0
  | .directive, lex => (fun stop => stop.pos - lex.pos) <$> lex.directiveEnd
  | .heading, lex => (fun stop => stop.pos - lex.pos) <$> lex.headingEnd
  | .codeBlock, lex => do
    let body ← lex.codeBlockBody
    (fun stop => stop.pos - body.pos) <$> body.closingFence
  | .inlineCode, lex => (fun stop => stop.pos - (lex.pos + 1)) <$> lex.inlineCodeEnd
  | .listItem, lex => (fun stop => stop.pos - lex.pos) <$> lex.lineEnd
  | .metadata, lex | .identifier, lex => (fun stop => stop.pos - lex.pos) <$> lex.wordEnd
  | .number, lex => (fun stop => stop.1.pos - lex.pos) <$> lex.numberEnd
  | .operator, lex => (fun stop => stop.pos - lex.pos) <$> lex.operatorEnd
  | .text, lex => (fun stop => stop.pos - lex.pos) <$> lex.textEnd

/-! ## Copies -/

theorem copyText_of_fits (h : Fits (lex.pos - start)) (hpos : lex.pos ≤ lex.sourceLen) :
    ∃ text, lex.copyText start = .ok text := by
  unfold copyText
  rw [if_neg (Int32.not_lt.2 h), if_neg (Nat.not_lt.2 hpos)]
  exact ⟨_, rfl⟩

theorem copyText_of_not_fits (h : ¬ Fits (lex.pos - start)) :
    ∃ e, lex.copyText start = .error e := by
  unfold copyText
  rw [if_pos (Int32.not_le.1 h)]
  exact ⟨_, rfl⟩

/-- What the call of a scanner does that copies `n` bytes: it returns exactly when `n` fits, with a token
other than `TOK_EOF`, further in the source. -/
def Scans (lex : FluxLexer) (n : Nat) (x : Except LexFault (FluxToken × FluxLexer)) : Prop :=
  (Fits n → ∃ r, x = .ok r ∧ r.1.type ≠ .EOF ∧ Reaches lex 1 r.2) ∧ (¬ Fits n → ∃ e, x = .error e)

/-- The rule of a scanner that finds its end, copies up to there and goes on to `e`. -/
theorem scans_of_end {t : List UInt8 → FluxToken} {e : Except LexFault FluxLexer}
    {x : Except LexFault (FluxToken × FluxLexer)}
    (hx : x = (do let text ← l.copyText start; let after ← e; pure (t text, after)))
    (hend : l.pos ≤ l.sourceLen) (htok : ∀ text, (t text).type ≠ .EOF)
    (hafter : Ensures noFault (Reaches lex 1) e) : Scans lex (l.pos - start) x := by
  subst hx
  obtain ⟨stop, rfl, hstop⟩ := exists_of_noFault hafter
  refine ⟨fun h => ?_, fun h => ?_⟩
  · obtain ⟨text, htext⟩ := copyText_of_fits h hend
    rw [htext]
    exact ⟨_, rfl, htok text, hstop⟩
  · obtain ⟨e, he⟩ := copyText_of_not_fits h
    rw [he]
    exact ⟨e, rfl⟩

/-- The rule of a scanner whose token ends where its text does. -/
theorem scans_of_text {t : List UInt8 → FluxToken} {stop : Except LexFault FluxLexer}
    {copied : Except LexFault Nat} {x : Except LexFault (FluxToken × FluxLexer)}
    (hcopied : copied = (fun l => l.pos - lex.pos) <$> stop)
    (hx : x = (do let l ← stop; let text ← l.copyText lex.pos; pure (t text, l)))
    (hstop : Ensures noFault (Reaches lex 1) stop) (htok : ∀ text, (t text).type ≠ .EOF) :
    ∃ n, copied = .ok n ∧ Scans lex n x := by
  obtain ⟨l, rfl, hl⟩ := exists_of_noFault hstop
  exact ⟨l.pos - lex.pos, hcopied, scans_of_end (e := pure l) hx hl.inside htok hl⟩

theorem scans_of_ok {r : FluxToken × FluxLexer} {x : Except LexFault (FluxToken × FluxLexer)}
    (hx : x = .ok r) (htok : r.1.type ≠ .EOF) (hr : Reaches lex 1 r.2) : Scans lex 0 x :=
  ⟨fun _ => ⟨r, hx, htok, hr⟩, fun h => absurd (by decide) h⟩

/-! ## The ends of the tokens -/

theorem any_eq_some {o : Option UInt8} {c : UInt8} : o.any (· = c) = true ↔ o = some c := by
  cases o <;> simp

theorem headingEnd_reaches (h : lex.source[lex.pos]? = some '#'.toUInt8) :
    Ensures noFault (Reaches lex 1) lex.headingEnd := by
  refine (advanceWhile_advances (any_eq_some.2 h)).bind fun mark hmark => ?_
  refine (advanceIf_reaches hmark.inside).bind fun text htext => ?_
  exact (advanceWhile_reaches htext.inside).imp fun l hl => (hmark.trans htext).trans hl

theorem codeBlockBody_reaches (h : lex.pos + 3 ≤ lex.sourceLen) :
    Ensures noFault (Reaches lex 3) lex.codeBlockBody := by
  have hopen : Reaches lex 3 (lex.advance 3) := reaches_advance h
  refine ((advanceAtMost_reaches hopen.inside).bind fun lang hlang => ?_)
  refine (advanceWhile_reaches hlang.inside).bind fun eol heol => ?_
  have hreach := (hopen.trans hlang).trans heol
  split
  · next hlt => exact (hreach.trans (reaches_advanceLine hlt)).mono (by omega)
  · exact hreach

theorem atFence_eq : lex.atFence = .ok ((lex.source[lex.pos]?).any (· = backquote) &&
    (lex.source[lex.pos + 1]?).any (· = backquote) &&
    (lex.source[lex.pos + 2]?).any (· = backquote)) := by
  unfold atFence
  rw [ahead_zero, ahead_eq, ahead_eq]
  rfl

theorem ensures_atFence_bind {α : Type} {E : LexFault → Prop} {Q : α → Prop}
    {f : Bool → Except LexFault α} : Ensures E Q (lex.atFence >>= f) ↔
      Ensures E Q (f ((lex.source[lex.pos]?).any (· = backquote) &&
        (lex.source[lex.pos + 1]?).any (· = backquote) &&
        (lex.source[lex.pos + 2]?).any (· = backquote))) := by
  rw [atFence_eq]
  rfl

/-- A fence has room in the source. -/
theorem room_of_fence (h : ((lex.source[lex.pos]?).any (· = backquote) &&
    (lex.source[lex.pos + 1]?).any (· = backquote) &&
    (lex.source[lex.pos + 2]?).any (· = backquote)) = true) : lex.pos + 3 ≤ lex.sourceLen := by
  obtain ⟨c, hc, -⟩ := exists_of_ahead (Bool.and_eq_true_iff.1 h).2
  exact lt_sourceLen hc

/-- The body of a code block ends where its closing fence has room. -/
theorem closingFence_spec (hpos : lex.pos ≤ lex.sourceLen) :
    Ensures noFault (fun l => Reaches lex 0 l ∧ (l.pos < l.sourceLen → l.pos + 3 ≤ l.sourceLen))
      lex.closingFence := by
  refine ensures_loop_of_reaches hpos fun l _ => ?_
  rw [ensures_ite]
  refine ⟨fun hlt => ?_, fun hlt => fun h => absurd h hlt⟩
  rw [ensures_atFence_bind, ensures_ite]
  refine ⟨fun hfence => fun _ => room_of_fence hfence, fun _ => ?_⟩
  obtain ⟨c, hc⟩ := exists_byte hlt
  rw [ensures_byteAt_bind hc]
  exact reaches_advanceOver c hlt

theorem inlineCodeEnd_reaches (h : lex.pos < lex.sourceLen) :
    Ensures noFault (Reaches lex 1) lex.inlineCodeEnd :=
  (advanceOverWhile_reaches (reaches_advance h).inside).imp fun _ hl => (reaches_advance h).trans hl

theorem lineEnd_reaches (h : lex.pos < lex.sourceLen) :
    Ensures noFault (Reaches lex 1) lex.lineEnd := by
  have hmark : Reaches lex 1 (lex.advance 1) := reaches_advance h
  refine (advanceIf_reaches hmark.inside).bind fun text htext => ?_
  exact (advanceWhile_reaches htext.inside).imp fun l hl => (hmark.trans htext).trans hl

theorem directiveEnd_reaches (h : lex.pos + 2 ≤ lex.sourceLen) :
    Ensures noFault (Reaches lex 1) lex.directiveEnd := by
  have hmark : Reaches lex 2 (lex.advance 2) := reaches_advance h
  exact (advanceWhile_reaches hmark.inside).imp fun l hl => (hmark.trans hl).mono (by omega)

theorem numberSuffix_reaches (hpos : lex.pos ≤ lex.sourceLen) :
    Ensures noFault (Reaches lex 0) lex.numberSuffix := by
  unfold numberSuffix
  rw [ensures_ahead_bind, ensures_ite]
  refine ⟨fun h => ?_, fun _ => Reaches.refl hpos⟩
  obtain ⟨c, hc, -⟩ := exists_of_ahead h
  have hone : Reaches lex 1 (lex.advance 1) := reaches_advance (lt_sourceLen hc)
  exact (advanceWhile_reaches hone.inside).imp fun l hl => (hone.trans hl).mono (by omega)

/-- A decimal number starts with a digit or a point. -/
theorem numberFraction_reaches
    (h : (lex.source[lex.pos]?).any (fun c => isDigit c || c = '.'.toUInt8) = true) :
    Ensures noFault (fun r => Reaches lex 1 r.1) lex.numberFraction := by
  obtain ⟨c, hc, hstart⟩ := exists_of_ahead h
  refine (advanceWhile_spec (Nat.le_of_lt (lt_sourceLen hc))).bind fun whole hwhole => ?_
  obtain ⟨hwhole, hstop⟩ := hwhole
  rw [ensures_ahead_bind, ensures_ite]
  refine ⟨fun hpoint => ?_, fun hpoint => ?_⟩
  · obtain ⟨d, hd, -⟩ := exists_of_ahead hpoint
    have hone : Reaches whole 1 (whole.advance 1) := reaches_advance (lt_sourceLen hd)
    exact (advanceWhile_reaches hone.inside).bind fun l hl =>
      ((hwhole.trans hone).trans hl).mono (by omega)
  · -- without a point the number starts with a digit
    refine hwhole.of_ne fun heq => ?_
    rw [Nat.add_zero, hwhole.source, heq, hc] at hpoint
    rw [hwhole.source, heq, hc] at hstop
    simp only [Option.any_some] at hpoint hstop
    rw [hstop, Bool.false_or] at hstart
    exact hpoint hstart

theorem numberExponent_reaches (hasFraction : Bool) (hpos : lex.pos ≤ lex.sourceLen) :
    Ensures noFault (fun r => Reaches lex 0 r.1) (lex.numberExponent hasFraction) := by
  unfold numberExponent
  rw [ensures_ahead_bind, ensures_ite]
  refine ⟨fun hexp => ?_, fun _ => Reaches.refl hpos⟩
  obtain ⟨e, he, -⟩ := exists_of_ahead hexp
  have hone : Reaches lex 1 (lex.advance 1) := reaches_advance (lt_sourceLen he)
  refine (advanceIf_reaches hone.inside).bind fun sign hsign => ?_
  exact (advanceWhile_reaches hsign.inside).bind fun l hl =>
    ((hone.trans hsign).trans hl).mono (by omega)

theorem numberDigits_reaches
    (h : (lex.source[lex.pos]?).any (fun c => isDigit c || c = '.'.toUInt8) = true) :
    Ensures noFault (fun r => Reaches lex 1 r.1) lex.numberDigits := by
  unfold numberDigits
  rw [ensures_ahead_bind, ensures_ahead_bind, ensures_ite]
  refine ⟨fun hhex => ?_, fun _ => ?_⟩
  · obtain ⟨x, hx, -⟩ := exists_of_ahead (Bool.and_eq_true_iff.1 hhex).2
    have htwo : Reaches lex 2 (lex.advance 2) := reaches_advance (lt_sourceLen hx)
    exact (advanceWhile_reaches htwo.inside).bind fun l hl => (htwo.trans hl).mono (by omega)
  · refine (numberFraction_reaches h).bind fun r hr => ?_
    obtain ⟨fraction, hasFraction⟩ := r
    exact (numberExponent_reaches hasFraction hr.inside).imp fun s hs => hr.trans hs

theorem numberEnd_reaches
    (h : (lex.source[lex.pos]?).any (fun c => isDigit c || c = '.'.toUInt8) = true) :
    Ensures noFault (fun r => Reaches lex 1 r.1) lex.numberEnd := by
  refine (numberDigits_reaches h).bind fun digits hdigits => ?_
  obtain ⟨digits, isFloat⟩ := digits
  exact (numberSuffix_reaches hdigits.inside).bind fun stop hstop => hdigits.trans hstop

theorem stringTurn_reaches (quote : UInt8) (text : List UInt8) :
    Ensures noFault (fun next => next.elim True fun t => Reaches l 1 t.1)
      (stringTurn quote (l, text)) := by
  show Ensures noFault _ (l.ahead 0 _ >>= _)
  rw [ensures_ahead_bind, ensures_ite]
  refine ⟨fun hgo => ?_, fun _ => trivial⟩
  obtain ⟨c, hc, -⟩ := exists_of_ahead (Bool.and_eq_true_iff.1 hgo).1
  have hlt := lt_sourceLen hc
  rw [Nat.add_zero] at hc
  rw [ensures_byteAt_bind hc, ensures_ite]
  refine ⟨fun hescape => ?_, fun _ => reaches_advanceOver c hlt⟩
  have hone : Reaches l 1 (l.advance 1) := reaches_advance hlt
  obtain ⟨e, he⟩ : ∃ e, (l.advance 1).source[(l.advance 1).pos]? = some e :=
    exists_byte hescape.2
  show Ensures noFault _ ((l.advance 1).byteAt _ >>= _)
  rw [ensures_byteAt_bind he, ensures_ite]
  refine ⟨fun _ => ?_, fun _ => ?_⟩
  · exact (advanceAtMost_reaches hone.inside).bind fun stop hstop => hone.trans hstop
  · exact (hone.trans (reaches_advance (n := 1) hescape.2)).mono (by omega)

theorem stringEnd_reaches (h : lex.pos < lex.sourceLen) :
    Ensures noFault (fun r => Reaches lex 1 r.1) lex.stringEnd := by
  obtain ⟨quote, hquote⟩ := exists_byte h
  unfold stringEnd
  rw [ensures_byteAt_bind hquote]
  refine ensures_loop_pair (fun l text _ => stringTurn_reaches quote text) (reaches_advance h) ?_
  show lex.sourceLen - (lex.pos + 1) < _
  omega

theorem operatorEnd_reaches (h : lex.pos < lex.sourceLen) :
    Ensures noFault (Reaches lex 1) lex.operatorEnd := by
  obtain ⟨c, hc⟩ := exists_byte h
  have hone : Reaches lex 1 (lex.advance 1) := reaches_advance h
  unfold operatorEnd
  rw [ensures_byteAt_bind hc]
  refine (ensures_ite _ _ _ _ _).2 ⟨fun hlt => ?_, fun _ => hone⟩
  obtain ⟨c2, hc2⟩ := exists_byte hlt
  rw [ensures_byteAt_bind hc2, ensures_ite]
  refine ⟨fun _ => ?_, fun _ => hone⟩
  have htwo := hone.trans (reaches_advance (n := 1) hlt)
  exact (advanceIf_reaches htwo.inside).imp fun l hl => (htwo.trans hl).mono (by omega)

/-- A byte that a text can start with. -/
def startsText (c : UInt8) : Bool := !endsText c && c ≠ '-'.toUInt8 && c ≠ '*'.toUInt8

theorem atListMarker_returns (h0 : lex.pos ≠ 0) (hpos : lex.pos ≤ lex.sourceLen) :
    Ensures noFault (fun _ => True) lex.atListMarker := by
  unfold atListMarker
  rw [ensures_ite, ensures_ite, if_neg h0]
  refine ⟨fun _ => trivial, fun _ => ⟨fun _ => ?_, fun _ => trivial⟩⟩
  obtain ⟨c, hc⟩ : ∃ c, lex.source[lex.pos - 1]? = some c := exists_byte (by omega)
  rw [byteAt_eq hc]
  trivial

theorem textEnd_reaches (h : (lex.source[lex.pos]?).any startsText = true) :
    Ensures noFault (Reaches lex 1) lex.textEnd := by
  obtain ⟨c, hc, hstart⟩ := exists_of_ahead h
  have hlt := lt_sourceLen hc
  have first {l : FluxLexer} {d : UInt8} (hl : Reaches lex 0 l) (hd : l.source[l.pos]? = some d)
      (hdc : d ≠ c) : l.pos ≠ lex.pos := fun heq => by
    rw [hl.source, heq, hc] at hd
    exact hdc (Option.some.inj hd).symm
  simp only [startsText, Bool.and_eq_true, Bool.not_eq_true', decide_eq_true_eq] at hstart
  refine (ensures_loop_of_reaches (Q := fun l => l.pos ≠ lex.pos) (Nat.le_of_lt hlt)
    fun l hl => ?_).imp fun l hl => hl.1.of_ne hl.2
  unfold textTurn
  rw [ensures_ite]
  refine ⟨fun hlt' => ?_, fun hend => fun heq => ?_⟩
  · obtain ⟨d, hd⟩ := exists_byte hlt'
    have hgo : Reaches l 1 (l.advance 1) := reaches_advance hlt'
    rw [ensures_byteAt_bind hd, ensures_ite, ensures_ite]
    refine ⟨fun hends => first hl hd fun hdc => ?_, fun _ => ⟨fun hdash => ?_, fun _ => hgo⟩⟩
    · rw [hdc, hstart.1.1] at hends
      cases hends
    · have hne : l.pos ≠ lex.pos := first hl hd fun hdc => by
        rw [hdc] at hdash
        exact hdash.elim hstart.1.2 hstart.2
      have hforward := hl.forward
      refine (atListMarker_returns (by omega) hl.inside).bind fun marker _ => ?_
      rw [ensures_ite]
      exact ⟨fun _ => hne, fun _ => hgo⟩
  · rw [hl.sourceLen_eq, heq] at hend
    exact hend hlt

/-! ## The scanners -/

/-- The bytes at which the scanner is chosen, as far as its progress depends on them. -/
def Scanner.Starts : Scanner → FluxLexer → Prop
  | .directive, lex => lex.pos + 2 ≤ lex.sourceLen
  | .heading, lex => lex.source[lex.pos]? = some '#'.toUInt8
  | .codeBlock, lex => lex.pos + 3 ≤ lex.sourceLen
  | .metadata, lex | .identifier, lex => (lex.source[lex.pos]?).any isWord = true
  | .number, lex => (lex.source[lex.pos]?).any (fun c => isDigit c || c = '.'.toUInt8) = true
  | .text, lex => (lex.source[lex.pos]?).any startsText = true
  | _, _ => True

theorem nextChar_eq (hc : lex.source[lex.pos]? = some c) :
    lex.fluxLexerNextChar = .ok (c, lex.advanceOver c) := by
  unfold fluxLexerNextChar
  rw [if_pos (lt_sourceLen hc), byteAt_eq hc]
  rfl

theorem scanNewline_scans (h : lex.pos < lex.sourceLen) : Scans lex 0 lex.fluxLexerScanNewline := by
  obtain ⟨c, hc⟩ := exists_byte h
  have hone := reaches_advanceOver c h
  unfold fluxLexerScanNewline
  rw [nextChar_eq hc]
  show Scans lex 0 (ahead _ 0 _ >>= _)
  rw [ahead_zero]
  show Scans lex 0 (if _ then _ else _)
  split
  · next hcr =>
    obtain ⟨d, hd, -⟩ := exists_of_ahead hcr.2
    rw [nextChar_eq hd]
    exact scans_of_ok rfl (by intro h; cases h)
      ((hone.trans (reaches_advanceOver d (lt_sourceLen hd))).mono (by omega))
  · exact scans_of_ok rfl (by intro h; cases h) hone

theorem scanPunctuation_scans (h : lex.pos < lex.sourceLen) :
    Scans lex 0 lex.fluxLexerScanPunctuation := by
  obtain ⟨c, hc⟩ := exists_byte h
  unfold fluxLexerScanPunctuation
  rw [byteAt_eq hc]
  exact scans_of_ok rfl (by intro h; cases h) ⟨rfl, Nat.le_refl _, h⟩

/-- The closing byte of a string or of inline code. -/
theorem reaches_close (h : Reaches lex 1 l) :
    Reaches lex 1 (if l.pos < l.sourceLen then l.advance 1 else l) := by
  split
  · next hlt => exact (h.trans (reaches_advance hlt)).mono (by omega)
  · exact h

theorem scanString_scans (h : lex.pos < lex.sourceLen) : Scans lex 0 lex.fluxLexerScanString := by
  obtain ⟨⟨stop, text⟩, heq, hstop⟩ := exists_of_noFault (stringEnd_reaches h)
  unfold fluxLexerScanString
  rw [heq]
  exact scans_of_ok rfl (by intro h; cases h) (reaches_close hstop)

theorem codeBlockClose_reaches (hpos : lex.pos ≤ lex.sourceLen)
    (hroom : lex.pos < lex.sourceLen → lex.pos + 3 ≤ lex.sourceLen) :
    Ensures noFault (Reaches lex 0) lex.codeBlockClose := by
  unfold codeBlockClose
  rw [ensures_ite]
  refine ⟨fun hlt => ?_, fun _ => Reaches.refl hpos⟩
  have three : Reaches lex 3 (lex.advance 3) := reaches_advance (hroom hlt)
  refine ensures_ahead_bind.2 ((ensures_ite _ _ _ _ _).2 ⟨fun h => ?_, fun _ => three.mono (by omega)⟩)
  obtain ⟨c, hc, -⟩ := exists_of_ahead h
  exact (three.trans (reaches_advanceLine (lt_sourceLen hc))).mono (by omega)

theorem scanCodeBlock_scans (h : lex.pos + 3 ≤ lex.sourceLen) :
    ∃ n, Scanner.codeBlock.copied lex = .ok n ∧ Scans lex n lex.fluxLexerScanCodeBlock := by
  obtain ⟨lang, hlang, -⟩ : ∃ lang, lex.codeBlockLang = .ok lang ∧ Reaches (lex.advance 3) 0 lang :=
    exists_of_noFault (advanceAtMost_reaches (reaches_advance h).inside)
  obtain ⟨body, hbody, hreach⟩ := exists_of_noFault (codeBlockBody_reaches h)
  obtain ⟨stop, hstop, hend, hroom⟩ := exists_of_noFault (closingFence_spec hreach.inside)
  refine ⟨stop.pos - body.pos, ?_, scans_of_end
    (t := fun text => { lex.token .CODE_BLOCK text with lang := lang.slice (lex.pos + 3) })
    (e := stop.codeBlockClose) ?_ hend.inside ?_ ?_⟩
  · rw [Scanner.copied, hbody]
    show (fun stop => stop.pos - body.pos) <$> body.closingFence = _
    rw [hstop]
    rfl
  · rw [fluxLexerScanCodeBlock, hlang, hbody]
    show (body.closingFence >>= _) = _
    rw [hstop]
    rfl
  · intro text h
    cases h
  · exact (codeBlockClose_reaches hend.inside hroom).imp fun l hl =>
      ((hreach.trans hend).trans hl).mono (by omega)

theorem scanInlineCode_scans (h : lex.pos < lex.sourceLen) :
    ∃ n, Scanner.inlineCode.copied lex = .ok n ∧ Scans lex n lex.fluxLexerScanInlineCode := by
  obtain ⟨stop, hstop, hreach⟩ := exists_of_noFault (inlineCodeEnd_reaches h)
  refine ⟨stop.pos - (lex.pos + 1), ?_, scans_of_end (t := lex.token .INLINE_CODE)
    (e := pure (if stop.pos < stop.sourceLen then stop.advance 1 else stop))
    ?_ hreach.inside ?_ (reaches_close hreach)⟩
  · rw [Scanner.copied, hstop]
    rfl
  · rw [fluxLexerScanInlineCode, hstop]
    rfl
  · intro text h
    cases h

theorem scanHeading_scans (h : lex.source[lex.pos]? = some '#'.toUInt8) :
    ∃ n, Scanner.heading.copied lex = .ok n ∧ Scans lex n lex.fluxLexerScanHeading := by
  obtain ⟨mark, hmark, -⟩ := exists_of_noFault
    (advanceWhile_reaches (p := (· = '#'.toUInt8)) (Nat.le_of_lt (lt_sourceLen h)))
  refine scans_of_text (t := fun text => { lex.token .HEADING text with
    headingLevel := if 6 < Int32.ofNat (mark.pos - lex.pos) then 6
      else Int32.ofNat (mark.pos - lex.pos) }) rfl ?_ (headingEnd_reaches h) ?_
  · rw [fluxLexerScanHeading, headingMark, hmark]
    rfl
  · intro text h
    cases h

theorem scanIdentifier_scans (h : (lex.source[lex.pos]?).any isWord = true) :
    ∃ n, Scanner.identifier.copied lex = .ok n ∧ Scans lex n lex.fluxLexerScanIdentifier := by
  refine scans_of_text (t := fun text => lex.token (if fluxLexerIsTypeKeyword text then .TYPE
    else if fluxLexerIsKeyword text then .KEYWORD else .IDENTIFIER) text) rfl rfl
    (advanceWhile_advances h) fun text => ?_
  show (if _ then _ else if _ then _ else _) ≠ _
  split
  · decide
  · split <;> decide

theorem scanNumber_scans
    (h : (lex.source[lex.pos]?).any (fun c => isDigit c || c = '.'.toUInt8) = true) :
    ∃ n, Scanner.number.copied lex = .ok n ∧ Scans lex n lex.fluxLexerScanNumber := by
  obtain ⟨⟨stop, isFloat⟩, hstop, hreach⟩ := exists_of_noFault (numberEnd_reaches h)
  refine ⟨stop.pos - lex.pos, ?_, scans_of_end (t := fun text => { lex.token .NUMBER text with
    value := if isFloat then .float else .int (Int32.ofNat (strtol text)) })
    (e := pure stop) ?_ hreach.inside ?_ hreach⟩
  · rw [Scanner.copied, hstop]
    rfl
  · rw [fluxLexerScanNumber, hstop]
    rfl
  · intro text h
    cases h

/-- Every scanner goes forward from the bytes at which it is chosen, unless it copies too much. -/
theorem scan_scans {s : Scanner} (hlt : lex.pos < lex.sourceLen) (h : s.Starts lex) :
    ∃ n, s.copied lex = .ok n ∧ Scans lex n (s.scan lex) := by
  have notEof {type : TokenType} (htype : type ≠ .EOF) :
      ∀ text, (lex.token type text).type ≠ .EOF := fun _ => htype
  cases s with
  | newline => exact ⟨0, rfl, scanNewline_scans hlt⟩
  | string => exact ⟨0, rfl, scanString_scans hlt⟩
  | punctuation => exact ⟨0, rfl, scanPunctuation_scans hlt⟩
  | directive => exact scans_of_text rfl rfl (directiveEnd_reaches h) (notEof (by decide))
  | heading => exact scanHeading_scans h
  | codeBlock => exact scanCodeBlock_scans h
  | inlineCode => exact scanInlineCode_scans hlt
  | listItem => exact scans_of_text rfl rfl (lineEnd_reaches hlt) (notEof (by decide))
  | metadata => exact scans_of_text rfl rfl (advanceWhile_advances h) (notEof (by decide))
  | number => exact scanNumber_scans h
  | identifier => exact scanIdentifier_scans h
  | operator => exact scans_of_text rfl rfl (operatorEnd_reaches hlt) (notEof (by decide))
  | text => exact scans_of_text rfl rfl (textEnd_reaches h) (notEof (by decide))

/-! ## The choice of the scanner -/

theorem metadataTurn_returns (i : Nat) (hasAlpha found : Bool) :
    Ensures noFault (fun next => next.elim True fun t => t.1 = i + 1 ∧ i < lex.sourceLen)
      (lex.metadataTurn (i, hasAlpha, found)) := by
  unfold metadataTurn
  rw [ensures_ite]
  refine ⟨fun h => ?_, fun _ => trivial⟩
  have hlt := h.2
  obtain ⟨c, hc⟩ := exists_byte hlt
  rw [ensures_byteAt_bind hc]
  simp only [ensures_ite, ensures_pure, Option.elim_some, Option.elim_none, true_and, implies_true,
    and_true, hlt]
  refine fun _ _ _ hnext => ?_
  obtain ⟨d, hd⟩ := exists_byte hnext
  rw [ensures_byteAt_bind hd]
  rfl

theorem isMetadataLine_returns : Ensures noFault (fun _ => True) lex.fluxLexerIsMetadataLine := by
  refine (ensures_bind _ _ _ _).2 ((ensures_loop (I := fun _ => True) (Q := fun _ => True)
    (fun (s : Nat × Bool × Bool) => lex.sourceLen - s.1) (fun s _ => ?_) trivial
      (Nat.lt_succ_self _)).imp fun _ _ => trivial)
  obtain ⟨i, hasAlpha, found⟩ := s
  refine (metadataTurn_returns i hasAlpha found).imp fun next hnext => ?_
  cases next with
  | none => exact trivial
  | some t =>
    obtain ⟨ht, hlt⟩ : t.1 = i + 1 ∧ i < lex.sourceLen := hnext
    refine ⟨trivial, ?_⟩
    show lex.sourceLen - t.1 < lex.sourceLen - i
    omega

/-- A line of metadata starts with a byte of its key. -/
theorem isMetadataLine_spec (hc : lex.source[lex.pos]? = some c) (hblank : isBlank c = false) :
    Ensures noFault (fun found => found = true → isWord c = true) lex.fluxLexerIsMetadataLine := by
  cases hword : isWord c with
  | true => exact isMetadataLine_returns.imp fun _ _ _ => rfl
  | false =>
    have hexit : lex.metadataTurn (lex.pos, false, false) = .ok none := by
      simp only [isWord, Bool.or_eq_false_iff, decide_eq_false_iff_not] at hword
      show (if ¬ false = true ∧ lex.pos < lex.sourceLen then _ else _) = _
      rw [if_pos ⟨by decide, lt_sourceLen hc⟩, byteAt_eq hc]
      show (if _ then _ else _) = _
      simp only [hword, hblank, Bool.false_eq_true, or_self, and_false, if_false, if_true, ne_eq,
        not_false_eq_true, and_self, ite_self]
      rfl
    unfold fluxLexerIsMetadataLine
    rw [loop_of_none hexit]
    intro h
    cases h

/-- A byte that no scanner before the text scanner takes starts a text, unless it is `#` or a
backquote. -/
theorem startsText_of_rest (hnewline : c ≠ newline)
    (hoperator : (bytes "+-*/%=!<>&|^~?:").contains c = false)
    (hpunctuation : (bytes "()\x7b\x7d[];,.").contains c = false) (hhash : c ≠ '#'.toUInt8)
    (hquote : c ≠ backquote) : startsText c = true := by
  rw [show bytes "+-*/%=!<>&|^~?:" = [43, 45, 42, 47, 37, 61, 33, 60, 62, 38, 124, 94, 126, 63, 58]
    by decide] at hoperator
  rw [show bytes "()\x7b\x7d[];,." = [40, 41, 123, 125, 91, 93, 59, 44, 46] by decide] at hpunctuation
  have hends : bytes "|<>[]" = [124, 60, 62, 91, 93] := by decide
  have hdash : '-'.toUInt8 = 45 := rfl
  have hstar : '*'.toUInt8 = 42 := rfl
  simp only [List.contains_cons, List.contains_nil, Bool.or_false, Bool.or_eq_false_iff,
    beq_eq_false_iff_ne] at hoperator hpunctuation
  simp [startsText, endsText, hends, hdash, hstar, hnewline, hhash, hquote, hoperator, hpunctuation]

theorem scanner_spec (hexit : lex.skipTurn = .ok none) (hlt : lex.pos < lex.sourceLen) :
    Ensures noFault (fun s => lex.Stuck ∨ s.Starts lex) lex.scanner := by
  obtain ⟨c, hc⟩ := exists_byte hlt
  unfold scanner
  rw [ensures_byteAt_bind hc, ensures_ite]
  refine ⟨fun _ => .inr trivial, fun hnewline => ?_⟩
  rw [ensures_ite]
  refine ⟨fun hhash => ?_, fun hhash => ?_⟩
  · refine ensures_ahead_bind.2 ((ensures_ite _ _ _ _ _).2 ⟨fun hbang => ?_, fun _ => ?_⟩)
    · obtain ⟨d, hd, -⟩ := exists_of_ahead hbang
      exact .inr (lt_sourceLen hd)
    · refine .inr ?_
      show lex.source[lex.pos]? = _
      rw [hc, hhash.1]
  rw [ensures_atFence_bind, ensures_ite]
  refine ⟨fun hfence => .inr (room_of_fence hfence), fun hfence => ?_⟩
  refine ensures_ahead_bind.2 ((ensures_ite _ _ _ _ _).2 ⟨fun _ => .inr trivial, fun hinline => ?_⟩)
  refine ensures_ahead_bind.2 ((ensures_ite _ _ _ _ _).2 ⟨fun hbang => ?_, fun hbang => ?_⟩)
  · obtain ⟨d, hd, -⟩ := exists_of_ahead hbang.2
    exact .inr (lt_sourceLen hd)
  refine ensures_ahead_bind.2 ((ensures_ite _ _ _ _ _).2 ⟨fun _ => .inr trivial, fun hlist => ?_⟩)
  refine (isMetadataLine_spec hc (not_isBlank_of_exit hexit hc)).bind fun found hfound => ?_
  refine (ensures_ite _ _ _ _ _).2 ⟨fun hmeta => ?_, fun hmeta => ?_⟩
  · refine .inr ?_
    show (lex.source[lex.pos]?).any isWord = true
    rw [hc]
    exact hfound hmeta.2
  refine (ensures_ite _ _ _ _ _).2 ⟨fun _ => .inr trivial, fun hstring => ?_⟩
  refine ensures_ahead_bind.2 ((ensures_ite _ _ _ _ _).2 ⟨fun hnumber => ?_, fun hnumber => ?_⟩)
  · refine .inr ?_
    show (lex.source[lex.pos]?).any _ = true
    rw [hc]
    rcases hnumber with hdigit | hpoint
    · exact Bool.or_eq_true_iff.2 (.inl hdigit)
    · exact Bool.or_eq_true_iff.2 (.inr (decide_eq_true hpoint.1))
  refine (ensures_ite _ _ _ _ _).2 ⟨fun hword => ?_, fun hword => ?_⟩
  · refine .inr ?_
    show (lex.source[lex.pos]?).any isWord = true
    rw [hc]
    rcases hword with halpha | hunderscore
    · simp [isWord, isAlnum, halpha]
    · simp [isWord, hunderscore]
  refine (ensures_ite _ _ _ _ _).2 ⟨fun _ => .inr trivial, fun hoperator => ?_⟩
  refine (ensures_ite _ _ _ _ _).2 ⟨fun _ => .inr trivial, fun hpunctuation => ?_⟩
  by_cases hh : c = '#'.toUInt8
  · subst hh
    refine .inl (.inl ⟨hc, fun hcol => hhash ⟨rfl, hcol⟩, fun hnext => hbang ⟨rfl, ?_⟩⟩)
    rw [hnext]
    rfl
  by_cases hq : c = backquote
  · subst hq
    have hnext : lex.source[lex.pos + 1]? = some backquote :=
      by_contra fun h => hinline ⟨rfl, fun hany => h (any_eq_some.1 hany)⟩
    refine .inl (.inr ⟨hc, hnext, fun hthird => hfence ?_⟩)
    rw [hc, hnext, hthird]
    decide
  refine .inr ?_
  show (lex.source[lex.pos]?).any startsText = true
  rw [hc]
  exact startsText_of_rest (fun h => hnewline (.inl h)) (Bool.eq_false_iff.2 hoperator)
    (Bool.eq_false_iff.2 hpunctuation) hh hq

/-! ## Where the lexer is stuck -/

theorem isMetadataLine_eq_false (hc : lex.source[lex.pos]? = some c) (hblank : isBlank c = false)
    (hword : isWord c = false) : lex.fluxLexerIsMetadataLine = .ok false := by
  obtain ⟨found, hfound, himp⟩ := exists_of_noFault (isMetadataLine_spec hc hblank)
  cases found with
  | false => exact hfound
  | true => exact nomatch hword.symm.trans (himp rfl)

theorem scanner_of_stuck (h : lex.Stuck) : lex.scanner = .ok .text := by
  have htext : Ensures noFault (· = .text) lex.scanner := by
    rcases h with ⟨hc, hcol, hnext⟩ | ⟨hc, hnext, hthird⟩
    · have hbang : (lex.source[lex.pos + 1]?).any (· = '!'.toUInt8) = false :=
        Bool.eq_false_iff.2 fun hany => hnext (any_eq_some.1 hany)
      have hmeta := isMetadataLine_eq_false hc (by decide) (by decide)
      unfold scanner
      simp +decide [ensures_byteAt_bind hc, ensures_ite, hmeta, hc, hcol, hbang, atFence_eq]
    · have hfence : (lex.source[lex.pos + 2]?).any (· = backquote) = false :=
        Bool.eq_false_iff.2 fun hany => hthird (any_eq_some.1 hany)
      have hmeta := isMetadataLine_eq_false hc (by decide) (by decide)
      unfold scanner
      simp +decide [ensures_byteAt_bind hc, ensures_ite, hmeta, hc, hnext, hfence, atFence_eq]
  obtain ⟨s, hs, rfl⟩ := exists_of_noFault htext
  exact hs

theorem textEnd_of_stuck (h : lex.Stuck) : lex.textEnd = .ok lex := by
  have hexit {c : UInt8} (hc : lex.source[lex.pos]? = some c) (hends : endsText c = true) :
      lex.textTurn = .ok none := by
    unfold textTurn
    rw [if_pos (lt_sourceLen hc), byteAt_eq hc]
    show (if _ then _ else _) = _
    rw [if_pos hends]
    rfl
  rcases h with ⟨hc, -, -⟩ | ⟨hc, -, -⟩
  · exact loop_of_exit (hexit hc (by decide))
  · exact loop_of_exit (hexit hc (by decide))

theorem scanText_of_stuck (h : lex.Stuck) (hpos : lex.pos ≤ lex.sourceLen) :
    ∃ text, lex.fluxLexerScanText = .ok (lex.token .TEXT text, lex) := by
  have hfits : Fits (lex.pos - lex.pos) := by
    rw [Nat.sub_self]
    decide
  obtain ⟨text, htext⟩ := copyText_of_fits hfits hpos
  unfold fluxLexerScanText
  refine ⟨text, ?_⟩
  rw [textEnd_of_stuck h]
  show (lex.copyText lex.pos >>= _) = _
  rw [htext]
  rfl

end FluxLexer

end FluxOs
