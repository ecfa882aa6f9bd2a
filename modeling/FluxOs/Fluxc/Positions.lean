import FluxOs.Lib.TextPositions
import FluxOs.Fluxc.Strings

/-!
# Lines and columns of the lexer

Whether `lex->line` and `lex->col` are the line and the column of `lex->pos`.  The initialization and
every scanner except the one of strings keep them.
-/

namespace FluxOs

open Faulting TextPositions

namespace FluxLexer

variable {lex l l' : FluxLexer} {c : UInt8} {j k : Nat} {p : UInt8 → Bool}

/-- The source in front of the position. -/
def passed (lex : FluxLexer) : List UInt8 := lex.source.take lex.pos

/-- The lexer's line and column are those of its position. -/
structure Exact (lex : FluxLexer) : Prop where
  line : lex.line.toInt = lineOf newline lex.passed
  col : lex.col.toInt = colOf newline lex.passed

/-- As `int` counts, the line is `j` too small, and the column is right if the line is. -/
structure Behind (lex : FluxLexer) (j : Nat) : Prop where
  line : lex.line + Int32.ofNat j = Int32.ofNat (lineOf newline lex.passed)
  col : j = 0 → lex.col = Int32.ofNat (colOf newline lex.passed)

/-- `l` is in the same source, and its line and column are as right as those of `lex`. -/
structure Keeps (lex l : FluxLexer) : Prop where
  source : l.source = lex.source
  behind : ∀ j, lex.Behind j → l.Behind j

/-- The faults of a computation that may have any. -/
def anyFault (_ : LexFault) : Prop := True

theorem Keeps.refl (lex : FluxLexer) : Keeps lex lex := ⟨rfl, fun _ h => h⟩

theorem Keeps.trans (h : Keeps lex l) (h' : Keeps l l') : Keeps lex l' :=
  ⟨h'.source.trans h.source, fun j hj => h'.behind j (h.behind j hj)⟩

/-! ## Steps -/

theorem passed_advance (hc : lex.source[lex.pos]? = some c) :
    (lex.advance 1).passed = lex.passed ++ [c] := take_succ_of_getElem? hc

theorem behind_advance (hc : lex.source[lex.pos]? = some c) (hne : c ≠ newline) (h : lex.Behind j) :
    (lex.advance 1).Behind j := by
  constructor
  · rw [passed_advance hc, lineOf_concat hne]
    exact h.line
  · intro hj
    rw [passed_advance hc, colOf_concat hne, Int32.ofNat_add, ← h.col hj]
    rfl

theorem behind_advanceLine (hc : lex.source[lex.pos]? = some newline) (h : lex.Behind j) :
    lex.advanceLine.Behind j := by
  have hpassed : lex.advanceLine.passed = lex.passed ++ [newline] := take_succ_of_getElem? hc
  constructor
  · rw [hpassed, lineOf_concat_sep, Int32.ofNat_add, ← h.line]
    show lex.line + 1 + _ = _
    rw [Int32.add_assoc, Int32.add_comm 1, ← Int32.add_assoc]
    rfl
  · intro _
    rw [hpassed, colOf_concat_sep]
    rfl

/-- A newline that is gone over as any other byte puts the line behind. -/
theorem behind_of_jump (hc : lex.source[lex.pos]? = some newline) (h : lex.Behind j) :
    (lex.advance 1).Behind (j + 1) := by
  constructor
  · rw [passed_advance hc, lineOf_concat_sep, Int32.ofNat_add, Int32.ofNat_add, ← Int32.add_assoc]
    exact congrArg (· + Int32.ofNat 1) h.line
  · intro hj
    cases hj

theorem keeps_advance (hc : lex.source[lex.pos]? = some c) (hne : c ≠ newline) :
    Keeps lex (lex.advance 1) := ⟨rfl, fun _ h => behind_advance hc hne h⟩

theorem keeps_advanceLine (hc : lex.source[lex.pos]? = some newline) : Keeps lex lex.advanceLine :=
  ⟨rfl, fun _ h => behind_advanceLine hc h⟩

theorem keeps_advanceOver (hc : lex.source[lex.pos]? = some c) : Keeps lex (lex.advanceOver c) := by
  unfold advanceOver
  split
  · next h =>
    subst h
    exact keeps_advanceLine hc
  · next h => exact keeps_advance hc h

/-- Several bytes that are no newlines. -/
theorem keeps_advance_two {d : UInt8} (hc : lex.source[lex.pos]? = some c) (hne : c ≠ newline)
    (hd : lex.source[lex.pos + 1]? = some d) (hned : d ≠ newline) : Keeps lex (lex.advance 2) := by
  rw [show (2 : Nat) = 1 + 1 from rfl, ← advance_advance]
  exact (keeps_advance hc hne).trans (keeps_advance hd hned)

theorem keeps_advance_three {d e : UInt8} (hc : lex.source[lex.pos]? = some c) (hne : c ≠ newline)
    (hd : lex.source[lex.pos + 1]? = some d) (hned : d ≠ newline)
    (he : lex.source[lex.pos + 2]? = some e) (hnee : e ≠ newline) : Keeps lex (lex.advance 3) := by
  rw [show (3 : Nat) = 2 + 1 from rfl, ← advance_advance]
  exact (keeps_advance_two hc hne hd hned).trans (keeps_advance he hnee)

/-! ## Loops -/

/-- The rule of a loop that keeps the line and the column in every turn. -/
theorem keeps_loop {body : FluxLexer → Except LexFault (Option FluxLexer)}
    (h : ∀ l, Ensures anyFault (fun next => ∀ t, next = some t → Keeps l t) (body l)) :
    Ensures anyFault (Keeps lex) (lex.loop body) := by
  refine ensures_loop_of_keeps trivial (fun l hl => ?_) (Keeps.refl lex)
  refine (h l).imp fun next hnext t ht => ?_
  exact hl.trans (hnext t ht)

/-- The rule of such a loop that carries a value beside the lexer. -/
theorem keeps_loop_pair {α : Type} {turn : FluxLexer × α → Except LexFault (Option (FluxLexer × α))}
    (h : ∀ s : FluxLexer × α, Ensures anyFault (fun next => ∀ t, next = some t → Keeps s.1 t.1) (turn s))
    {a : α} {fuel : Nat} :
    Ensures anyFault (fun s : FluxLexer × α => Keeps lex s.1) (Faulting.loop turn .diverged fuel (lex, a)) := by
  refine ensures_loop_of_keeps (I := fun s : FluxLexer × α => Keeps lex s.1) trivial (fun s hs => ?_)
    (Keeps.refl lex)
  refine (h s).imp fun next hnext t ht => ?_
  exact hs.trans (hnext t ht)

/-- A look ahead at a byte of a class without newlines. -/
theorem exists_of_class (hp : p newline = false) {i : Nat} (h : (lex.source[i]?).any p = true) :
    ∃ c, lex.source[i]? = some c ∧ c ≠ newline := by
  obtain ⟨c, hc, hpc⟩ := exists_of_ahead h
  refine ⟨c, hc, fun heq => ?_⟩
  rw [heq, hp] at hpc
  cases hpc

theorem keeps_of_class (hp : p newline = false) (h : (lex.source[lex.pos]?).any p = true) :
    Keeps lex (lex.advance 1) := by
  obtain ⟨c, hc, hne⟩ := exists_of_class hp h
  exact keeps_advance hc hne

theorem keeps_advanceWhile (hp : p newline = false) : Ensures anyFault (Keeps lex) (lex.advanceWhile p) := by
  refine keeps_loop fun l => ?_
  rw [ensures_ahead_bind, ensures_ite]
  refine ⟨fun h => ?_, fun _ => ?_⟩
  · rintro t ⟨⟩
    exact keeps_of_class hp h
  · rintro t ⟨⟩

theorem keeps_advanceAtMost (hp : p newline = false) :
    Ensures anyFault (Keeps lex) (lex.advanceAtMost k p) := by
  refine keeps_loop fun l => ?_
  rw [ensures_ahead_bind, ensures_ite]
  refine ⟨fun h => ?_, fun _ => ?_⟩
  · rintro t ⟨⟩
    exact keeps_of_class hp (Bool.and_eq_true_iff.1 h).1
  · rintro t ⟨⟩

theorem keeps_advanceOverWhile : Ensures anyFault (Keeps lex) (lex.advanceOverWhile p) := by
  refine keeps_loop fun l => ?_
  rw [ensures_ahead_bind, ensures_ite]
  refine ⟨fun h => ?_, fun _ => ?_⟩
  · obtain ⟨c, hc, -⟩ := exists_of_ahead h
    rw [Nat.add_zero] at hc
    rw [byteAt_eq hc]
    rintro t ⟨⟩
    exact keeps_advanceOver hc
  · rintro t ⟨⟩

theorem keeps_advanceIf (hp : p newline = false) : Ensures anyFault (Keeps lex) (lex.advanceIf p) := by
  unfold advanceIf
  rw [ensures_ahead_bind, ensures_ite]
  exact ⟨fun h => keeps_of_class hp h, fun _ => Keeps.refl lex⟩

theorem keeps_nextChar : Ensures anyFault (fun r => Keeps lex r.2) lex.fluxLexerNextChar := by
  unfold fluxLexerNextChar
  rw [ensures_ite]
  refine ⟨fun h => ?_, fun _ => Keeps.refl lex⟩
  obtain ⟨c, hc⟩ := exists_byte h
  rw [ensures_byteAt_bind hc]
  exact keeps_advanceOver hc

/-! ## Blanks, comments and frontmatter -/

theorem keeps_blockCommentTurn (s : FluxLexer × Nat) :
    Ensures anyFault (fun next => ∀ t, next = some t → Keeps s.1 t.1) (blockCommentTurn s) := by
  obtain ⟨l, depth⟩ := s
  unfold blockCommentTurn
  rw [ensures_ite]
  refine ⟨fun h => ?_, fun _ => ?_⟩
  · obtain ⟨c, hc⟩ : ∃ c, l.source[l.pos]? = some c := exists_byte (by omega)
    obtain ⟨d, hd⟩ : ∃ d, l.source[l.pos + 1]? = some d := exists_byte (by omega)
    rw [ensures_byteAt_bind hc, ensures_byteAt_bind hd, ensures_ite, ensures_ite]
    refine ⟨?_, fun _ => ⟨?_, fun _ => ?_⟩⟩
    · rintro ⟨rfl, rfl⟩ t ⟨⟩
      exact keeps_advance_two hc (by decide) hd (by decide)
    · rintro ⟨rfl, rfl⟩ t ⟨⟩
      exact keeps_advance_two hc (by decide) hd (by decide)
    · rintro t ⟨⟩
      exact keeps_advanceOver hc
  · rintro t ⟨⟩

theorem keeps_skipBlockComment (hc : lex.source[lex.pos]? = some '/'.toUInt8)
    (hd : lex.source[lex.pos + 1]? = some '*'.toUInt8) :
    Ensures anyFault (Keeps lex) lex.fluxLexerSkipBlockComment := by
  refine (ensures_bind _ _ _ _).2 ?_
  refine (keeps_loop_pair keeps_blockCommentTurn).imp fun s hs => ?_
  exact (keeps_advance_two hc (by decide) hd (by decide)).trans hs

theorem keeps_skipTurn (l : FluxLexer) :
    Ensures anyFault (fun next => ∀ t, next = some t → Keeps l t) l.skipTurn := by
  unfold skipTurn
  rw [ensures_ite]
  refine ⟨fun hlt => ?_, fun _ => ?_⟩
  · obtain ⟨c, hc⟩ := exists_byte hlt
    rw [ensures_byteAt_bind hc, ensures_ite, ensures_ite]
    refine ⟨?_, fun _ => ⟨?_, fun _ => ?_⟩⟩
    · rintro hblank t ⟨⟩
      refine keeps_advance hc fun h => ?_
      rw [h] at hblank
      exact absurd hblank (by decide)
    · rintro ⟨rfl, hnext⟩
      obtain ⟨d, hd⟩ := exists_byte hnext
      rw [ensures_byteAt_bind hd, ensures_ite, ensures_ite]
      refine ⟨fun _ => ?_, fun _ => ⟨?_, fun _ => ?_⟩⟩
      · refine (ensures_map _ _ _ _).2 ((keeps_advanceWhile (by decide)).imp fun t ht => ?_)
        rintro _ ⟨⟩
        exact ht
      · rintro rfl
        refine (ensures_map _ _ _ _).2 ((keeps_skipBlockComment hc hd).imp fun t ht => ?_)
        rintro _ ⟨⟩
        exact ht
      · rintro t ⟨⟩
    · rintro t ⟨⟩
  · rintro t ⟨⟩

theorem keeps_skip : Ensures anyFault (Keeps lex) lex.fluxLexerSkipWhitespaceAndComments :=
  keeps_loop keeps_skipTurn

theorem keeps_frontmatterTurn (s : FluxLexer × Bool) :
    Ensures anyFault (fun next => ∀ t, next = some t → Keeps s.1 t.1) (frontmatterTurn s) := by
  obtain ⟨l, closed⟩ := s
  unfold frontmatterTurn
  rw [ensures_ite]
  refine ⟨fun h => ?_, fun _ => ?_⟩
  · obtain ⟨c, hc⟩ : ∃ c, l.source[l.pos]? = some c := exists_byte (by omega)
    obtain ⟨d, hd⟩ : ∃ c, l.source[l.pos + 1]? = some c := exists_byte (by omega)
    obtain ⟨e, he⟩ : ∃ c, l.source[l.pos + 2]? = some c := exists_byte (by omega)
    rw [ensures_byteAt_bind hc, ensures_byteAt_bind hd, ensures_byteAt_bind he, ensures_ite]
    refine ⟨?_, fun _ => ?_⟩
    · rintro ⟨rfl, rfl, rfl⟩
      have hdashes := keeps_advance_three hc (by decide) hd (by decide) he (by decide)
      refine ensures_ahead_bind.2 ((ensures_ite _ _ _ _ _).2 ⟨fun hline => ?_, fun _ => ?_⟩)
      · obtain ⟨c, hc, hnewline⟩ := exists_of_ahead hline
        rintro t ⟨⟩
        exact hdashes.trans (keeps_advanceLine (of_decide_eq_true hnewline ▸ hc))
      · rintro t ⟨⟩
        exact hdashes
    · rintro t ⟨⟩
      exact keeps_advanceOver hc
  · rintro t ⟨⟩

/-! ## The ends of the tokens -/

/-- A scanner that goes on behind the text that it copies. -/
theorem ensures_copy_bind {α : Type} {Q : α → Prop} {x : Except LexFault (List UInt8)}
    {f : List UInt8 → Except LexFault α} (h : ∀ text, Ensures anyFault Q (f text)) :
    Ensures anyFault Q (x >>= f) := by
  cases x with
  | ok text => exact h text
  | error e => exact trivial

theorem keeps_headingEnd : Ensures anyFault (Keeps lex) lex.headingEnd := by
  refine (keeps_advanceWhile (by decide)).bind fun mark hmark => ?_
  refine (keeps_advanceIf (by decide)).bind fun text htext => ?_
  exact (keeps_advanceWhile (by decide)).imp fun l hl => (hmark.trans htext).trans hl

theorem keeps_lineEnd (h : Keeps lex (lex.advance 1)) : Ensures anyFault (Keeps lex) lex.lineEnd := by
  refine (keeps_advanceIf (by decide)).bind fun text htext => ?_
  exact (keeps_advanceWhile (by decide)).imp fun l hl => (h.trans htext).trans hl

theorem isWord_newline : isWord newline = false := by decide

theorem keeps_wordEnd : Ensures anyFault (Keeps lex) lex.wordEnd := keeps_advanceWhile isWord_newline

theorem isDigit_newline : isDigit newline = false := by decide

theorem keeps_numberFraction : Ensures anyFault (fun r => Keeps lex r.1) lex.numberFraction := by
  refine (keeps_advanceWhile isDigit_newline).bind fun whole hwhole => ?_
  rw [ensures_ahead_bind, ensures_ite]
  refine ⟨fun hpoint => ?_, fun _ => hwhole⟩
  have hone := hwhole.trans (keeps_of_class (by decide) hpoint)
  exact (keeps_advanceWhile isDigit_newline).bind fun stop hstop => hone.trans hstop

theorem keeps_numberExponent (hasFraction : Bool) :
    Ensures anyFault (fun r => Keeps lex r.1) (lex.numberExponent hasFraction) := by
  unfold numberExponent
  rw [ensures_ahead_bind, ensures_ite]
  refine ⟨fun hexp => ?_, fun _ => Keeps.refl lex⟩
  have hone : Keeps lex (lex.advance 1) := keeps_of_class (by decide) hexp
  refine (keeps_advanceIf (by decide)).bind fun sign hsign => ?_
  exact (keeps_advanceWhile isDigit_newline).bind fun stop hstop => (hone.trans hsign).trans hstop

theorem keeps_numberDigits : Ensures anyFault (fun r => Keeps lex r.1) lex.numberDigits := by
  unfold numberDigits
  rw [ensures_ahead_bind, ensures_ahead_bind, ensures_ite]
  refine ⟨fun hhex => ?_, fun _ => ?_⟩
  · obtain ⟨hzero, hx⟩ := Bool.and_eq_true_iff.1 hhex
    obtain ⟨c, hc, hne⟩ := exists_of_class (by decide) hzero
    obtain ⟨d, hd, hned⟩ := exists_of_class (by decide) hx
    have htwo : Keeps lex (lex.advance 2) := keeps_advance_two hc hne hd hned
    exact (keeps_advanceWhile (by decide)).bind fun stop hstop => htwo.trans hstop
  · refine keeps_numberFraction.bind fun r hr => ?_
    obtain ⟨fraction, hasFraction⟩ := r
    exact (keeps_numberExponent hasFraction).imp fun s hs => hr.trans hs

theorem keeps_numberSuffix : Ensures anyFault (Keeps lex) lex.numberSuffix := by
  unfold numberSuffix
  rw [ensures_ahead_bind, ensures_ite]
  refine ⟨fun h => ?_, fun _ => Keeps.refl lex⟩
  have hone : Keeps lex (lex.advance 1) := keeps_of_class (by decide) h
  exact (keeps_advanceWhile isDigit_newline).imp fun l hl => hone.trans hl

theorem keeps_numberEnd : Ensures anyFault (fun r => Keeps lex r.1) lex.numberEnd := by
  refine keeps_numberDigits.bind fun digits hdigits => ?_
  obtain ⟨digits, isFloat⟩ := digits
  exact keeps_numberSuffix.bind fun stop hstop => hdigits.trans hstop

theorem isPair_newline (c : UInt8) : isPair c newline = false := by
  simp +decide [isPair, bytes]

theorem isTriple_newline (c d : UInt8) : isTriple c d newline = false := by
  simp +decide [isTriple, bytes]

theorem keeps_operatorEnd (hc : lex.source[lex.pos]? = some c) (hne : c ≠ newline) :
    Ensures anyFault (Keeps lex) lex.operatorEnd := by
  have hone : Keeps lex (lex.advance 1) := keeps_advance hc hne
  unfold operatorEnd
  rw [ensures_byteAt_bind hc]
  refine (ensures_ite _ _ _ _ _).2 ⟨fun hlt => ?_, fun _ => hone⟩
  obtain ⟨c2, hc2⟩ := exists_byte hlt
  rw [ensures_byteAt_bind hc2, ensures_ite]
  refine ⟨fun hpair => ?_, fun _ => hone⟩
  have hne2 : c2 ≠ newline := fun h => by
    rw [h, isPair_newline] at hpair
    cases hpair
  exact (keeps_advanceIf (isTriple_newline c c2)).imp fun l hl =>
    (hone.trans (keeps_advance hc2 hne2)).trans hl

/-- Where a loop over the bytes of a class ends. -/
theorem any_of_advanceWhile (h : lex.advanceWhile p = .ok l) : (l.source[l.pos]?).any p = false := by
  have hexit := exit_of_loop h
  rw [ahead_zero] at hexit
  revert hexit
  cases (l.source[l.pos]?).any p with
  | false => exact fun _ => rfl
  | true => exact fun hexit => absurd hexit (by simp [bind, Except.bind, pure, Except.pure])

theorem any_of_advanceOverWhile (h : lex.advanceOverWhile p = .ok l) :
    (l.source[l.pos]?).any p = false := by
  have hexit := exit_of_loop h
  rw [ahead_zero] at hexit
  by_contra hany
  obtain ⟨c, hc, -⟩ := exists_of_ahead (Bool.not_eq_false _ ▸ hany)
  rw [Bool.not_eq_false] at hany
  simp [hany, byteAt_eq hc, bind, Except.bind] at hexit

theorem keeps_codeBlockBody (h : Keeps lex (lex.advance 3)) :
    Ensures anyFault (Keeps lex) lex.codeBlockBody := by
  have hlang : Ensures anyFault (Keeps (lex.advance 3)) lex.codeBlockLang := keeps_advanceAtMost (by decide)
  refine hlang.bind fun lang hlang => ?_
  refine (keeps_advanceWhile (by decide)).with_eq.bind fun eol heol => ?_
  obtain ⟨heol, hend⟩ := heol
  have hkeeps := (h.trans hlang).trans heol
  refine (ensures_pure _ _ _).2 ?_
  split
  · next hlt =>
    -- the loop stops inside the source only at a newline
    obtain ⟨c, hc⟩ := exists_byte hlt
    have hstop := any_of_advanceWhile hend
    rw [hc, Option.any_some, decide_eq_false_iff_not, not_not] at hstop
    exact hkeeps.trans (keeps_advanceLine (hstop ▸ hc))
  · exact hkeeps

theorem keeps_closingFence : Ensures anyFault (Keeps lex) lex.closingFence := by
  refine keeps_loop fun l => ?_
  rw [ensures_ite]
  refine ⟨fun hlt => ?_, fun _ => ?_⟩
  · rw [ensures_atFence_bind, ensures_ite]
    refine ⟨fun _ => ?_, fun _ => ?_⟩
    · rintro t ⟨⟩
    · obtain ⟨c, hc⟩ := exists_byte hlt
      rw [ensures_byteAt_bind hc]
      rintro t ⟨⟩
      exact keeps_advanceOver hc
  · rintro t ⟨⟩

theorem keeps_codeBlockClose (h : l.pos < l.sourceLen → l.atFence = .ok true) :
    Ensures anyFault (Keeps l) l.codeBlockClose := by
  unfold codeBlockClose
  rw [ensures_ite]
  refine ⟨fun hlt => ?_, fun _ => Keeps.refl l⟩
  have hfence := h hlt
  rw [atFence_eq] at hfence
  have hquotes := Except.ok.inj hfence
  simp only [Bool.and_eq_true, any_eq_some] at hquotes
  obtain ⟨⟨h0, h1⟩, h2⟩ := hquotes
  have hthree : Keeps l (l.advance 3) :=
    keeps_advance_three h0 (by decide) h1 (by decide) h2 (by decide)
  refine ensures_ahead_bind.2 ((ensures_ite _ _ _ _ _).2 ⟨fun hline => ?_, fun _ => hthree⟩)
  exact hthree.trans (keeps_advanceLine (any_eq_some.1 hline))

/-- The closing fence is where the body of a code block ends inside the source. -/
theorem atFence_of_closingFence (h : lex.closingFence = .ok l) (hlt : l.pos < l.sourceLen) :
    l.atFence = .ok true := by
  have hexit := exit_of_loop h
  rw [if_pos hlt] at hexit
  obtain ⟨c, hc⟩ := exists_byte hlt
  rw [atFence_eq] at hexit ⊢
  revert hexit
  generalize ((l.source[l.pos]?).any (· = backquote) && (l.source[l.pos + 1]?).any (· = backquote) &&
    (l.source[l.pos + 2]?).any (· = backquote)) = fence
  cases fence with
  | true => exact fun _ => rfl
  | false => exact fun hexit => absurd hexit (by simp [byteAt_eq hc, bind, Except.bind, pure, Except.pure])

/-! ## The scanners -/

/-- The bytes at which a scanner is chosen, as far as the lines and columns depend on them. -/
def Scanner.Opens : Scanner → FluxLexer → Prop
  | .newline, _ => True
  | .directive, lex =>
    lex.source[lex.pos]? = some '#'.toUInt8 ∧ lex.source[lex.pos + 1]? = some '!'.toUInt8
  | .codeBlock, lex => lex.atFence = .ok true
  | _, lex => ∃ c, lex.source[lex.pos]? = some c ∧ c ≠ FluxOs.newline

theorem scanner_opens (lex : FluxLexer) : Ensures anyFault (fun s => s.Opens lex) lex.scanner := by
  unfold scanner
  refine (ensures_bind _ _ _ _).2 (ensures_of_forall (fun c hbyte => ?_) fun _ _ => trivial)
  have hc : lex.source[lex.pos]? = some c := by
    unfold byteAt at hbyte
    split at hbyte
    · next c' hc =>
      obtain rfl : c' = c := Except.ok.inj hbyte
      exact hc
    · cases hbyte
  refine (ensures_ite _ _ _ _ _).2 ⟨fun _ => trivial, fun hnewline => ?_⟩
  have hopen : ∃ c, lex.source[lex.pos]? = some c ∧ c ≠ FluxOs.newline :=
    ⟨c, hc, fun h => hnewline (.inl h)⟩
  refine (ensures_ite _ _ _ _ _).2 ⟨fun hhash => ?_, fun _ => ?_⟩
  · refine ensures_ahead_bind.2 ((ensures_ite _ _ _ _ _).2 ⟨fun hbang => ?_, fun _ => hopen⟩)
    exact ⟨hhash.1 ▸ hc, any_eq_some.1 hbang⟩
  rw [atFence_eq]
  refine (ensures_ite _ _ _ _ _).2 ⟨fun hfence => ?_, fun _ => ?_⟩
  · show lex.atFence = .ok true
    rw [atFence_eq, hfence]
  refine ensures_ahead_bind.2 ((ensures_ite _ _ _ _ _).2 ⟨fun _ => hopen, fun _ => ?_⟩)
  refine ensures_ahead_bind.2 ((ensures_ite _ _ _ _ _).2 ⟨fun hbang => ?_, fun _ => ?_⟩)
  · exact ⟨hbang.1 ▸ hc, any_eq_some.1 hbang.2⟩
  refine ensures_ahead_bind.2 ((ensures_ite _ _ _ _ _).2 ⟨fun _ => hopen, fun _ => ?_⟩)
  refine (ensures_bind _ _ _ _).2 (ensures_of_forall (fun found _ => ?_) fun _ _ => trivial)
  refine (ensures_ite _ _ _ _ _).2 ⟨fun _ => hopen, fun _ => ?_⟩
  refine (ensures_ite _ _ _ _ _).2 ⟨fun _ => hopen, fun _ => ?_⟩
  refine ensures_ahead_bind.2 ((ensures_ite _ _ _ _ _).2 ⟨fun _ => hopen, fun _ => ?_⟩)
  refine (ensures_ite _ _ _ _ _).2 ⟨fun _ => hopen, fun _ => ?_⟩
  refine (ensures_ite _ _ _ _ _).2 ⟨fun _ => hopen, fun _ => ?_⟩
  exact (ensures_ite _ _ _ _ _).2 ⟨fun _ => hopen, fun _ => hopen⟩

theorem keeps_scanNewline : Ensures anyFault (fun r => Keeps lex r.2) lex.fluxLexerScanNewline := by
  refine keeps_nextChar.bind fun r hr => ?_
  obtain ⟨c, stop⟩ := r
  refine ensures_ahead_bind.2 ((ensures_ite _ _ _ _ _).2 ⟨fun _ => ?_, fun _ => hr⟩)
  exact keeps_nextChar.bind fun r' hr' => hr.trans hr'

theorem keeps_scanHeading : Ensures anyFault (fun r => Keeps lex r.2) lex.fluxLexerScanHeading := by
  refine (ensures_bind _ _ _ _).2 (ensures_of_forall (fun mark _ => ?_) fun _ _ => trivial)
  exact keeps_headingEnd.bind fun stop hstop => ensures_copy_bind fun text => hstop

theorem keeps_scanCodeBlock (h : lex.atFence = .ok true) :
    Ensures anyFault (fun r => Keeps lex r.2) lex.fluxLexerScanCodeBlock := by
  have hquotes := h
  rw [atFence_eq] at hquotes
  replace hquotes := Except.ok.inj hquotes
  simp only [Bool.and_eq_true, any_eq_some] at hquotes
  obtain ⟨⟨h0, h1⟩, h2⟩ := hquotes
  have hthree : Keeps lex (lex.advance 3) :=
    keeps_advance_three h0 (by decide) h1 (by decide) h2 (by decide)
  refine (ensures_bind _ _ _ _).2 (ensures_of_forall (fun lang _ => ?_) fun _ _ => trivial)
  refine (keeps_codeBlockBody hthree).bind fun body hbody => ?_
  refine keeps_closingFence.with_eq.bind fun stop hstop => ensures_copy_bind fun text => ?_
  refine (keeps_codeBlockClose (atFence_of_closingFence hstop.2)).bind fun after hafter => ?_
  exact (hbody.trans hstop.1).trans hafter

theorem keeps_scanInlineCode (h : Keeps lex (lex.advance 1)) :
    Ensures anyFault (fun r => Keeps lex r.2) lex.fluxLexerScanInlineCode := by
  have hloop : Ensures anyFault (Keeps (lex.advance 1)) lex.inlineCodeEnd := keeps_advanceOverWhile
  refine hloop.with_eq.bind fun stop hstop => ensures_copy_bind fun text => ?_
  obtain ⟨hkeeps, hend⟩ := hstop
  refine (ensures_pure _ _ _).2 ?_
  split
  · next hlt =>
    -- the byte behind inline code is its closing backquote
    obtain ⟨c, hc⟩ := exists_byte hlt
    have hquote := any_of_advanceOverWhile hend
    rw [hc, Option.any_some, decide_eq_false_iff_not, not_not] at hquote
    refine (h.trans hkeeps).trans (keeps_advance hc ?_)
    rw [hquote]
    decide
  · exact h.trans hkeeps

theorem keeps_scanListItem (h : Keeps lex (lex.advance 1)) :
    Ensures anyFault (fun r => Keeps lex r.2) lex.fluxLexerScanListItem :=
  (keeps_lineEnd h).bind fun _ hstop => ensures_copy_bind fun _ => hstop

theorem keeps_scanMetadata : Ensures anyFault (fun r => Keeps lex r.2) (lex.fluxLexerScanMetadata true) :=
  keeps_wordEnd.bind fun _ hstop => ensures_copy_bind fun _ => hstop

theorem keeps_scanIdentifier : Ensures anyFault (fun r => Keeps lex r.2) lex.fluxLexerScanIdentifier :=
  keeps_wordEnd.bind fun _ hstop => ensures_copy_bind fun _ => hstop

theorem keeps_scanNumber : Ensures anyFault (fun r => Keeps lex r.2) lex.fluxLexerScanNumber := by
  refine keeps_numberEnd.bind fun r hr => ?_
  obtain ⟨stop, isFloat⟩ := r
  exact ensures_copy_bind fun text => hr

theorem keeps_scanOperator (hc : lex.source[lex.pos]? = some c) (hne : c ≠ newline) :
    Ensures anyFault (fun r => Keeps lex r.2) lex.fluxLexerScanOperator :=
  (keeps_operatorEnd hc hne).bind fun _ hstop => ensures_copy_bind fun _ => hstop

theorem keeps_parenDepth (depth : Int32) : Keeps lex { lex with parenDepth := depth } :=
  ⟨rfl, fun _ h => ⟨h.line, h.col⟩⟩

theorem keeps_scanPunctuation (hc : lex.source[lex.pos]? = some c) (hne : c ≠ newline) :
    Ensures anyFault (fun r => Keeps lex r.2) lex.fluxLexerScanPunctuation := by
  unfold fluxLexerScanPunctuation
  rw [ensures_byteAt_bind hc]
  exact (keeps_advance hc hne).trans (keeps_parenDepth _)

theorem keeps_scanDirective (hc : lex.source[lex.pos]? = some '#'.toUInt8)
    (hd : lex.source[lex.pos + 1]? = some '!'.toUInt8) :
    Ensures anyFault (fun r => Keeps lex r.2) lex.fluxLexerScanDirective := by
  have htwo := keeps_advance_two hc (by decide) hd (by decide)
  have hend : Ensures anyFault (Keeps (lex.advance 2)) lex.directiveEnd := keeps_wordEnd
  exact hend.bind fun stop hstop => ensures_copy_bind fun text => htwo.trans hstop

theorem keeps_textTurn (l : FluxLexer) :
    Ensures anyFault (fun next => ∀ t, next = some t → Keeps l t) l.textTurn := by
  unfold textTurn
  rw [ensures_ite]
  refine ⟨fun hlt => ?_, fun _ => ?_⟩
  · obtain ⟨c, hc⟩ := exists_byte hlt
    rw [ensures_byteAt_bind hc, ensures_ite, ensures_ite]
    refine ⟨fun _ => ?_, fun hends => ?_⟩
    · rintro t ⟨⟩
    · have hone : Keeps l (l.advance 1) := by
        refine keeps_advance hc fun h => hends ?_
        rw [h]
        decide
      refine ⟨fun _ => ?_, fun _ => ?_⟩
      · refine (ensures_bind _ _ _ _).2 (ensures_of_forall (fun marker _ => ?_) fun _ _ => trivial)
        rw [ensures_ite]
        refine ⟨fun _ => ?_, fun _ => ?_⟩
        · rintro t ⟨⟩
        · rintro t ⟨⟩
          exact hone
      · rintro t ⟨⟩
        exact hone
  · rintro t ⟨⟩

theorem keeps_scanText : Ensures anyFault (fun r => Keeps lex r.2) lex.fluxLexerScanText := by
  have hend : Ensures anyFault (Keeps lex) lex.textEnd := keeps_loop keeps_textTurn
  exact hend.bind fun stop hstop => ensures_copy_bind fun text => hstop

/-- Every scanner but that of strings keeps the line and the column. -/
theorem Scanner.keeps {s : Scanner} (hs : s ≠ .string) (h : s.Opens lex) :
    Ensures anyFault (fun r => Keeps lex r.2) (s.scan lex) := by
  cases s with
  | newline => exact keeps_scanNewline
  | directive => exact keeps_scanDirective h.1 h.2
  | heading => exact keeps_scanHeading
  | codeBlock => exact keeps_scanCodeBlock h
  | inlineCode =>
    obtain ⟨c, hc, hne⟩ := h
    exact keeps_scanInlineCode (keeps_advance hc hne)
  | listItem =>
    obtain ⟨c, hc, hne⟩ := h
    exact keeps_scanListItem (keeps_advance hc hne)
  | metadata => exact keeps_scanMetadata
  | string => exact absurd rfl hs
  | number => exact keeps_scanNumber
  | identifier => exact keeps_scanIdentifier
  | operator =>
    obtain ⟨c, hc, hne⟩ := h
    exact keeps_scanOperator hc hne
  | punctuation =>
    obtain ⟨c, hc, hne⟩ := h
    exact keeps_scanPunctuation hc hne
  | text => exact keeps_scanText

end FluxLexer

open FluxLexer in
/-- The lexer stands at the line and the column of its position after the initialization. -/
theorem fluxLexerInit_keeps (source : List UInt8) :
    Ensures anyFault (fun lex => lex.Behind 0) (fluxLexerInit source) := by
  have hstart : Behind { source := source, pos := 0, line := 1, col := 1, parenDepth := 0 } 0 :=
    ⟨rfl, fun _ => rfl⟩
  unfold fluxLexerInit
  simp only [ensures_ite]
  refine ⟨fun h => ?_, fun _ => hstart⟩
  have hbyte {i : Nat} (hi : i < 3) : source[i]? = (bytes "---")[i]? := by
    rw [← h, List.getElem?_take_of_lt hi]
  have h0 := hbyte (show 0 < 3 by decide)
  have h1 := hbyte (show 1 < 3 by decide)
  have h2 := hbyte (show 2 < 3 by decide)
  refine (ensures_bind _ _ _ _).2 ((keeps_loop_pair keeps_frontmatterTurn).imp fun s hs => ?_)
  exact hs.behind 0 ((keeps_advance_three h0 (by decide) h1 (by decide) h2 (by decide)).behind 0 hstart)

end FluxOs
