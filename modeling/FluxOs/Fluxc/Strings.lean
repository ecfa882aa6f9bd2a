import FluxOs.Fluxc.Spellings
import FluxOs.Fluxc.Tokenizing

/-!
# String literals

What a string literal stands for, and what the lexer makes of it.  The loop of `flux_lexer_scan_string` ends at the
closing quote or where the text of the token is full, and the byte behind it is skipped as the closing quote in both
cases: a literal is one token exactly if its content fits (`string_right_iff`).
-/

namespace FluxOs

open Faulting

/-- The spelling of a content between quotes: bytes that are no quote and no backslash, escapes of one byte, and up
to three octal digits of which the first is not `0`. -/
inductive StringBody (quote : UInt8) : List UInt8 → List UInt8 → Prop
  | nil : StringBody quote [] []
  | plain {c : UInt8} {s content : List UInt8} : c ≠ quote → c ≠ backslash → StringBody quote s content →
      StringBody quote (c :: s) (c :: content)
  | escaped {e : UInt8} {s content : List UInt8} : ¬ (e ≠ '0'.toUInt8 ∧ isOctal e = true) →
      StringBody quote s content → StringBody quote (backslash :: e :: s) (FluxLexer.escape e :: content)
  | octal {d : UInt8} {ds s content : List UInt8} : d ≠ '0'.toUInt8 → (∀ e ∈ d :: ds, isOctal e = true) →
      ds.length ≤ 2 → (ds.length = 2 ∨ s.head?.any isOctal = false) → StringBody quote s content →
      StringBody quote (backslash :: (d :: ds ++ s)) (UInt8.ofNat (digitsValue 8 (d :: ds)) :: content)

namespace FluxLexer

variable {lex l : FluxLexer} {quote c e : UInt8} {s content text r : List UInt8}

/-- The next token is the string literal with this spelling and this content, and the lexer stands just behind its
closing quote. -/
def StringRight (lex : FluxLexer) (stop : Nat) (content : List UInt8) : Prop :=
  ∃ tok l, lex.fluxLexerNext = .ok (tok, l) ∧ tok.type = .STRING ∧ tok.text = content ∧ l.pos = stop

/-! ## Turns of the loop -/

theorem byteAt_of_rest (h : lex.rest = c :: r) : lex.byteAt lex.pos = .ok c := by
  apply byteAt_eq
  rw [head?_rest, h, List.head?_cons]

theorem lt_sourceLen_of_rest (h : lex.rest = c :: r) : lex.pos < lex.sourceLen := by
  have hlen := length_rest lex
  rw [h, List.length_cons] at hlen
  omega

/-- The loop is left where the text is full and at the closing quote. -/
theorem stringTurn_of_full (hfull : ¬ text.length < fluxTokenTextMax - 1) :
    stringTurn quote (lex, text) = .ok none := by
  unfold stringTurn
  simp [hfull, bind, Except.bind, pure, Except.pure]

theorem stringTurn_of_quote (hrest : lex.rest = quote :: r) : stringTurn quote (lex, text) = .ok none := by
  unfold stringTurn
  simp only [ahead_zero, head?_rest, hrest]
  simp [bind, Except.bind, pure, Except.pure]

theorem turn_goes_on (hrest : lex.rest = c :: r) (hc : c ≠ quote) (hroom : text.length < fluxTokenTextMax - 1) :
    ((lex.source[lex.pos]?).any (· ≠ quote) && decide (text.length < fluxTokenTextMax - 1)) = true := by
  rw [head?_rest, hrest]
  simp [hc, hroom]

theorem stringTurn_of_plain (hrest : lex.rest = c :: r) (hc : c ≠ quote) (hb : c ≠ backslash)
    (hroom : text.length < fluxTokenTextMax - 1) :
    stringTurn quote (lex, text) = .ok (some (lex.advanceOver c, text ++ [c])) := by
  unfold stringTurn
  simp only [ahead_zero]
  show (if _ then _ else _) = _
  rw [if_pos (turn_goes_on hrest hc hroom), byteAt_of_rest hrest]
  show (if _ then _ else _) = _
  rw [if_neg (by simp [hb])]
  rfl

theorem stringTurn_of_backslash (hrest : lex.rest = backslash :: e :: r) (hquote : backslash ≠ quote)
    (hroom : text.length < fluxTokenTextMax - 1) :
    stringTurn quote (lex, text) =
      if e ≠ '0'.toUInt8 ∧ isOctal e then do
        let stop ← (lex.advance 1).advanceAtMost 3 isOctal
        pure (some (stop, text ++ [UInt8.ofNat (digitsValue 8 (stop.slice (lex.advance 1).pos))]))
      else pure (some ((lex.advance 1).advance 1, text ++ [escape e])) := by
  have hnext : (lex.advance 1).rest = e :: r := (moves_advance lex 1).rest_of_cons hrest
  have hlen : lex.pos + 1 < lex.sourceLen := lt_sourceLen_of_rest hnext
  unfold stringTurn
  simp only [ahead_zero]
  show (if _ then _ else _) = _
  rw [if_pos (turn_goes_on hrest hquote hroom), byteAt_of_rest hrest]
  show (if _ then _ else _) = _
  rw [if_pos ⟨rfl, hlen⟩, byteAt_of_rest hnext]
  rfl

theorem stringTurn_of_escaped (hrest : lex.rest = backslash :: e :: r) (hquote : backslash ≠ quote)
    (he : ¬ (e ≠ '0'.toUInt8 ∧ isOctal e = true)) (hroom : text.length < fluxTokenTextMax - 1) :
    stringTurn quote (lex, text) = .ok (some ((lex.advance 1).advance 1, text ++ [escape e])) := by
  rw [stringTurn_of_backslash hrest hquote hroom, if_neg he]
  rfl

theorem stringTurn_of_octal {d : UInt8} {ds : List UInt8} (hrest : lex.rest = backslash :: (d :: ds ++ r))
    (hquote : backslash ≠ quote) (hd : d ≠ '0'.toUInt8) (hds : ∀ e ∈ d :: ds, isOctal e = true) (hlen : ds.length ≤ 2)
    (hend : ds.length = 2 ∨ r.head?.any isOctal = false) (hroom : text.length < fluxTokenTextMax - 1) :
    ∃ l, stringTurn quote (lex, text) = .ok (some (l, text ++ [UInt8.ofNat (digitsValue 8 (d :: ds))])) ∧
      Moves lex (1 + (d :: ds).length) l := by
  have hnext : (lex.advance 1).rest = d :: ds ++ r := (moves_advance lex 1).rest_of_cons hrest
  obtain ⟨l, hl, hmoves⟩ := advanceAtMost_moves (n := 3) hnext hds (Nat.succ_le_succ hlen)
    (hend.imp_left fun h => by rw [List.length_cons, h])
  refine ⟨l, ?_, (moves_advance lex 1).trans hmoves⟩
  rw [stringTurn_of_backslash hrest hquote hroom, if_pos ⟨hd, hds d List.mem_cons_self⟩, hl]
  show Except.ok _ = _
  rw [hmoves.slice_eq, hnext, List.take_left]

/-! ## The loop -/

/-- Where the loop ends that started in front of a literal's content: at the closing quote with the whole content, if
it fits, and else in front of it. -/
structure StringStop (lex : FluxLexer) (text s content : List UInt8) (t : FluxLexer × List UInt8) : Prop where
  source : t.1.source = lex.source
  fits : text.length + content.length ≤ fluxTokenTextMax - 1 → t.2 = text ++ content ∧ t.1.pos = lex.pos + s.length
  cut : fluxTokenTextMax - 1 < text.length + content.length → t.1.pos < lex.pos + s.length

/-- A turn and the loop behind it. -/
theorem StringStop.step {w : List UInt8} {t : FluxLexer × List UInt8} (hmoves : Moves lex w.length l)
    (h : StringStop l (text ++ [c]) s content t) : StringStop lex text (w ++ s) (c :: content) t := by
  have hlen : (text ++ [c]).length + content.length = text.length + (c :: content).length := by
    simp only [List.length_append, List.length_cons, List.length_nil]
    omega
  have hpos : l.pos + s.length = lex.pos + (w ++ s).length := by
    rw [hmoves.pos, List.length_append, Nat.add_assoc]
  refine ⟨h.source.trans hmoves.source, fun hfits => ?_, fun hcut => ?_⟩
  · obtain ⟨htext, hstop⟩ := h.fits (hlen ▸ hfits)
    refine ⟨?_, hstop.trans hpos⟩
    rw [htext, List.append_assoc, List.singleton_append]
  · rw [← hpos]
    exact h.cut (hlen ▸ hcut)

/-- The loop is left in front of a spelling that is not empty when the text is full. -/
theorem StringStop.of_full (hfull : ¬ text.length < fluxTokenTextMax - 1) (hs : s ≠ []) (hcontent : content ≠ []) :
    StringStop lex text s content (lex, text) := by
  have hpos := List.length_pos_iff.2 hs
  have hpos' := List.length_pos_iff.2 hcontent
  refine ⟨rfl, fun hfits => ?_, fun _ => ?_⟩
  · omega
  · simp only
    omega

theorem stringLoop_stop (hquote : backslash ≠ quote) (hoctal : isOctal quote = false)
    (hbody : StringBody quote s content)
    (hrest : lex.rest = s ++ quote :: r) (htext : text.length ≤ fluxTokenTextMax - 1) :
    ∃ t, LeavesWithin (stringTurn quote) s.length (lex, text) t ∧ StringStop lex text s content t := by
  induction hbody generalizing lex text with
  | nil =>
    refine ⟨_, .here (stringTurn_of_quote hrest), rfl, fun _ => ?_, fun hcut => ?_⟩
    · exact ⟨(List.append_nil _).symm, rfl⟩
    · simp only [List.length_nil] at hcut
      omega
  | @plain c s content hc hb _ ih =>
    by_cases hroom : text.length < fluxTokenTextMax - 1
    · have hmoves := moves_advanceOver lex c
      have hmore : (text ++ [c]).length ≤ fluxTokenTextMax - 1 := by rwa [List.length_append]
      obtain ⟨t, ht, hstop⟩ := ih (hmoves.rest_of_cons hrest) hmore
      exact ⟨t, .next (stringTurn_of_plain hrest hc hb hroom) ht, hstop.step (w := [c]) hmoves⟩
    · exact ⟨_, .here (stringTurn_of_full hroom), .of_full hroom (by simp) (by simp)⟩
  | @escaped e s content he _ ih =>
    by_cases hroom : text.length < fluxTokenTextMax - 1
    · have hmoves : Moves lex [backslash, e].length ((lex.advance 1).advance 1) :=
        (moves_advance lex 1).trans (moves_advance _ 1)
      have hmore : (text ++ [escape e]).length ≤ fluxTokenTextMax - 1 := by rwa [List.length_append]
      obtain ⟨t, ht, hstop⟩ := ih (hmoves.rest_of_append hrest) hmore
      have hleaves := LeavesWithin.next (stringTurn_of_escaped hrest hquote he hroom) ht
      exact ⟨t, hleaves.mono (Nat.le_succ _), hstop.step (w := [backslash, e]) hmoves⟩
    · exact ⟨_, .here (stringTurn_of_full hroom), .of_full hroom (by simp) (by simp)⟩
  | @octal d ds s content hd hds hlen hend _ ih =>
    by_cases hroom : text.length < fluxTokenTextMax - 1
    · have hrest' : lex.rest = backslash :: (d :: ds ++ (s ++ quote :: r)) := by
        rw [hrest]
        simp
      have hend' : ds.length = 2 ∨ (s ++ quote :: r).head?.any isOctal = false := by
        refine hend.imp_right fun h => ?_
        cases s with
        | nil => exact hoctal
        | cons => exact h
      obtain ⟨l, hturn, hmoves⟩ := stringTurn_of_octal hrest' hquote hd hds hlen hend' hroom
      have hmoves' : Moves lex (backslash :: d :: ds).length l := by rwa [List.length_cons, Nat.add_comm]
      have hmore : (text ++ [UInt8.ofNat (digitsValue 8 (d :: ds))]).length ≤ fluxTokenTextMax - 1 := by
        rwa [List.length_append]
      obtain ⟨t, ht, hstop⟩ := ih (hmoves'.rest_of_append hrest') hmore
      have hless : s.length + 1 ≤ (backslash :: (d :: ds ++ s)).length := by
        simp only [List.length_cons, List.length_append]
        omega
      have hleaves := LeavesWithin.next hturn ht
      exact ⟨t, hleaves.mono hless, hstop.step (w := backslash :: d :: ds) hmoves'⟩
    · exact ⟨_, .here (stringTurn_of_full hroom), .of_full hroom (by simp) (by simp)⟩

/-! ## The token -/

theorem isQuote_spec (h : quote = doubleQuote ∨ quote = singleQuote) :
    backslash ≠ quote ∧ isOctal quote = false ∧ isBlank quote = false ∧ quote ≠ newline ∧ quote ≠ backquote := by
  rcases h with rfl | rfl
  · decide
  · decide

/-- A quote is dispatched to the scanner of strings. -/
theorem scanner_of_quote (hquote : quote = doubleQuote ∨ quote = singleQuote) (hrest : lex.rest = quote :: r) :
    lex.scanner = .ok .string := by
  have hc : lex.source[lex.pos]? = some quote := by rw [head?_rest, hrest, List.head?_cons]
  have hstring : Ensures noFault (· = .string) lex.scanner := by
    rcases hquote with rfl | rfl
    · have hmeta := isMetadataLine_eq_false hc (by decide) (by decide)
      unfold scanner
      simp +decide [ensures_byteAt_bind hc, ensures_ite, hmeta, hc, atFence_eq]
    · have hmeta := isMetadataLine_eq_false hc (by decide) (by decide)
      unfold scanner
      simp +decide [ensures_byteAt_bind hc, ensures_ite, hmeta, hc, atFence_eq]
  obtain ⟨s, hs, rfl⟩ := exists_of_noFault hstring
  exact hs

/-- There is nothing to skip in front of a quote. -/
theorem skip_of_quote (hquote : quote = doubleQuote ∨ quote = singleQuote) (hrest : lex.rest = quote :: r) :
    lex.fluxLexerSkipWhitespaceAndComments = .ok lex := by
  apply skip_of_exit
  rw [skipTurn, if_pos (lt_sourceLen_of_rest hrest), byteAt_of_rest hrest]
  rcases hquote with rfl | rfl
  · rfl
  · rfl

/-- What `flux_lexer_next` returns at a string literal: the whole literal, if its content fits, and else a token that
ends inside it. -/
theorem next_of_string (hquote : quote = doubleQuote ∨ quote = singleQuote) (hbody : StringBody quote s content)
    (hskip : lex.fluxLexerSkipWhitespaceAndComments = .ok l) (hrest : l.rest = quote :: (s ++ quote :: r)) :
    ∃ tok l', lex.fluxLexerNext = .ok (tok, l') ∧ tok.type = .STRING ∧
      (content.length ≤ fluxTokenTextMax - 1 → tok.text = content ∧ l'.pos = l.pos + s.length + 2) ∧
      (fluxTokenTextMax - 1 < content.length → l'.pos < l.pos + s.length + 2) := by
  obtain ⟨hback, hoctal, -⟩ := isQuote_spec hquote
  have hmoves := moves_advance l 1
  have hlen : (s ++ quote :: r).length = l.sourceLen - (l.pos + 1) := by
    rw [← hmoves.rest_of_cons hrest, length_rest, hmoves.sourceLen_eq, hmoves.pos]
  have hcons : s.length < (s ++ quote :: r).length := by
    simp only [List.length_append, List.length_cons]
    omega
  have hlt := lt_sourceLen_of_rest hrest
  have hempty : ([] : List UInt8).length ≤ fluxTokenTextMax - 1 := Nat.zero_le _
  have hfuel : s.length < l.sourceLen - l.pos + 1 := by omega
  obtain ⟨t, ht, hstop⟩ := stringLoop_stop hback hoctal hbody (hmoves.rest_of_cons hrest) hempty
  have hend : l.stringEnd = .ok t := by
    rw [stringEnd, byteAt_of_rest hrest]
    exact ht.loop_eq hfuel
  have hsource : t.1.sourceLen = l.sourceLen := congrArg List.length hstop.source
  -- the byte behind the loop is in the source: it is the closing quote, or in front of it
  have hinside : t.1.pos < t.1.sourceLen := by
    rw [hsource]
    by_cases hfits : content.length ≤ fluxTokenTextMax - 1
    · have hpos := (hstop.fits (by simpa using hfits)).2
      rw [hmoves.pos] at hpos
      omega
    · have hless := hstop.cut (by simpa using Nat.lt_of_not_le hfits)
      rw [hmoves.pos] at hless
      omega
  have hscan : l.fluxLexerScanString = .ok (l.token .STRING t.2, t.1.advance 1) := by
    rw [fluxLexerScanString, hend]
    show Except.ok (l.token .STRING t.2, if _ then _ else _) = _
    rw [if_pos hinside]
  refine ⟨l.token .STRING t.2, t.1.advance 1, ?_, rfl, fun hfits => ?_, fun hcut => ?_⟩
  · rw [next_of_scanner hskip hlt (scanner_of_quote hquote hrest)]
    exact hscan
  · obtain ⟨htext, hpos⟩ := hstop.fits (by simpa using hfits)
    refine ⟨htext, ?_⟩
    rw [(moves_advance t.1 1).pos, hpos, hmoves.pos]
    omega
  · have hless := hstop.cut (by simpa using hcut)
    rw [hmoves.pos] at hless
    rw [(moves_advance t.1 1).pos]
    omega

/-- A terminated string literal is one token with its content, behind which the lexer goes on, exactly if the content
fits into the text of a token. -/
theorem string_right_iff (lex l : FluxLexer) (quote : UInt8) (s content r : List UInt8)
    (hquote : quote = doubleQuote ∨ quote = singleQuote) (hbody : StringBody quote s content)
    (hskip : lex.fluxLexerSkipWhitespaceAndComments = .ok l) (hrest : l.rest = quote :: (s ++ quote :: r)) :
    lex.StringRight (l.pos + s.length + 2) content ↔ content.length ≤ fluxTokenTextMax - 1 := by
  obtain ⟨tok, l', hnext, htype, hfits, hcut⟩ := next_of_string hquote hbody hskip hrest
  constructor
  · rintro ⟨tok', l'', hnext', -, -, hpos⟩
    obtain ⟨-, rfl⟩ := Prod.mk.inj (Except.ok.inj (hnext.symm.trans hnext'))
    by_contra hlong
    have hless := hcut (Nat.lt_of_not_le hlong)
    omega
  · intro hle
    obtain ⟨htext, hpos⟩ := hfits hle
    exact ⟨tok, l', hnext, htype, htext, hpos⟩

/-- `'a\n'` at the start of a source. -/
def shortLiteral : FluxLexer :=
  { source := [39, 97, 92, 110, 39], pos := 0, line := 1, col := 1, parenDepth := 0 }

theorem string_right_shortLiteral : shortLiteral.StringRight 5 [97, 10] := by
  have hbody : StringBody singleQuote [97, 92, 110] [97, 10] :=
    .plain (by decide) (by decide) (.escaped (by decide) .nil)
  exact (string_right_iff shortLiteral shortLiteral singleQuote [97, 92, 110] [97, 10] [] (.inr rfl) hbody rfl rfl).2
    (by decide)

theorem stringBody_replicate (n : Nat) (hc : c ≠ quote) (hb : c ≠ backslash) :
    StringBody quote (List.replicate n c) (List.replicate n c) := by
  induction n with
  | zero => exact .nil
  | succ n ih => exact .plain hc hb ih

/-- A literal of 2048 letters at the start of a source. -/
def longLiteral : FluxLexer :=
  { source := doubleQuote :: (List.replicate 2048 97 ++ [doubleQuote]), pos := 0, line := 1, col := 1,
    parenDepth := 0 }

/-- The next token ends inside the literal. -/
theorem longLiteral_not_right :
    StringBody doubleQuote (List.replicate 2048 97) (List.replicate 2048 97) ∧
      longLiteral.rest = doubleQuote :: (List.replicate 2048 97 ++ [doubleQuote]) ∧
      ¬ longLiteral.StringRight (0 + (List.replicate 2048 (97 : UInt8)).length + 2) (List.replicate 2048 97) := by
  have hbody : StringBody doubleQuote (List.replicate 2048 97) (List.replicate 2048 97) :=
    stringBody_replicate 2048 (by decide) (by decide)
  have hrest : longLiteral.rest = doubleQuote :: (List.replicate 2048 97 ++ [doubleQuote]) := List.drop_zero
  refine ⟨hbody, hrest, ?_⟩
  rintro ⟨tok, l, hnext, -, -, hpos⟩
  obtain ⟨tok', l', hnext', -, -, hcut⟩ := next_of_string (.inl rfl) hbody (skip_of_quote (.inl rfl) hrest) hrest
  obtain ⟨-, rfl⟩ := Prod.mk.inj (Except.ok.inj (hnext.symm.trans hnext'))
  have hless := hcut (by rw [List.length_replicate]; decide)
  have hzero : longLiteral.pos = 0 := rfl
  rw [hpos, hzero] at hless
  exact Nat.lt_irrefl _ hless

end FluxLexer

end FluxOs
