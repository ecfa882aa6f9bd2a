import FluxOs.Fluxc.Positions

/-!
# Exact positions

The scanner of strings goes over an escaped newline, and over one where its text is full, as over any
other byte (`JumpsNewline`).  From there on the line is too small, so that the positions of a run are
exact if and only if no call does this, and the numbers fit in an `int`.
-/

namespace FluxOs

open Faulting TextPositions

namespace FluxLexer

variable {lex l : FluxLexer} {c quote : UInt8} {j n : Nat}

/-! ## Strings -/

/-- Whether the scanner of a string, with `n` bytes of text so far, goes over a newline of the source as
over any other byte: an escaped one, or the one at which the text is full. -/
def jumpsNewline (quote : UInt8) (n : Nat) : List UInt8 → Bool
  | [] => false
  | c :: cs =>
    if c = quote ∨ fluxTokenTextMax - 1 ≤ n then c = newline
    else if c = backslash then
      match cs with
      | [] => false
      | e :: es =>
        if e ≠ '0'.toUInt8 ∧ isOctal e then
          jumpsNewline quote (n + 1) (es.drop ((es.take 2).takeWhile isOctal).length)
        else e = newline || jumpsNewline quote (n + 1) es
    else jumpsNewline quote (n + 1) cs
  termination_by r => r.length
  decreasing_by all_goals simp_wf <;> omega

theorem jumpsNewline_of_end (h : c = quote ∨ fluxTokenTextMax - 1 ≤ n) (r : List UInt8) :
    jumpsNewline quote n (c :: r) = decide (c = newline) := by
  rw [jumpsNewline.eq_def]
  exact if_pos h

theorem jumpsNewline_of_plain {r : List UInt8} (hc : c ≠ quote) (hroom : n < fluxTokenTextMax - 1)
    (hb : c ≠ backslash ∨ r = []) : jumpsNewline quote n (c :: r) = jumpsNewline quote (n + 1) r := by
  have hgo : ¬ (c = quote ∨ fluxTokenTextMax - 1 ≤ n) := not_or.2 ⟨hc, Nat.not_le.2 hroom⟩
  rw [jumpsNewline.eq_def]
  simp only
  rw [if_neg hgo]
  rcases hb with hb | rfl
  · rw [if_neg hb]
  · simp [jumpsNewline.eq_def]

theorem jumpsNewline_of_backslash {e : UInt8} {r : List UInt8} (hquote : backslash ≠ quote)
    (hroom : n < fluxTokenTextMax - 1) : jumpsNewline quote n (backslash :: e :: r) =
      if e ≠ '0'.toUInt8 ∧ isOctal e then
        jumpsNewline quote (n + 1) (r.drop ((r.take 2).takeWhile isOctal).length)
      else e = newline || jumpsNewline quote (n + 1) r := by
  have hgo : ¬ (backslash = quote ∨ fluxTokenTextMax - 1 ≤ n) := not_or.2 ⟨hquote, Nat.not_le.2 hroom⟩
  rw [jumpsNewline.eq_def]
  simp only
  rw [if_neg hgo, if_pos trivial]

/-- The octal digits that an escape goes over behind its first one. -/
theorem exists_octals (r : List UInt8) : ∃ ds, ds ++ r.drop ((r.take 2).takeWhile isOctal).length = r ∧
    (∀ d ∈ ds, isOctal d = true) ∧ ds.length ≤ 2 ∧
    (ds.length = 2 ∨ (r.drop ((r.take 2).takeWhile isOctal).length).head?.any isOctal = false) := by
  rcases r with - | ⟨d, - | ⟨e, r⟩⟩
  · exact ⟨[], by simp⟩
  · by_cases hd : isOctal d = true
    · exact ⟨[d], by simp [hd]⟩
    · exact ⟨[], by simp [hd]⟩
  · by_cases hd : isOctal d = true
    · by_cases he : isOctal e = true
      · exact ⟨[d, e], by simp [hd, he]⟩
      · exact ⟨[d], by simp [hd, he]⟩
    · exact ⟨[], by simp [hd]⟩

/-- The loop over a string has `text` so far: the line is behind by the newlines it jumped, and it jumps
one on its whole way exactly if it has or if it will. -/
def Lagging (quote : UInt8) (jumps : Bool) (lex : FluxLexer) (text : List UInt8) : Prop :=
  text.length ≤ fluxTokenTextMax - 1 ∧ ∃ j ≤ text.length, lex.Behind j ∧
    (jumps = true ↔ 0 < j ∨ jumpsNewline quote text.length lex.rest = true)

theorem exists_rest (h : lex.source[lex.pos]? = some c) : ∃ r, lex.rest = c :: r := by
  rw [head?_rest] at h
  exact List.head?_eq_some_iff.1 h

theorem getElem?_of_rest {r : List UInt8} (h : lex.rest = c :: r) : lex.source[lex.pos]? = some c := by
  rw [head?_rest, h, List.head?_cons]

/-- A turn over a byte that is no escape. -/
theorem lagging_plain {jumps : Bool} {text r : List UInt8} (hrest : lex.rest = c :: r) (hc : c ≠ quote)
    (hroom : text.length < fluxTokenTextMax - 1) (hb : c ≠ backslash ∨ r = [])
    (h : Lagging quote jumps lex text) : Lagging quote jumps (lex.advanceOver c) (text ++ [c]) := by
  obtain ⟨-, j, hj, hbehind, hjumps⟩ := h
  have hrest' : (lex.advanceOver c).rest = r := (moves_advanceOver lex c).rest_of_cons hrest
  have hlen : (text ++ [c]).length = text.length + 1 := List.length_append
  refine ⟨by omega, j, by omega, (keeps_advanceOver (getElem?_of_rest hrest)).behind j hbehind, ?_⟩
  rw [hjumps, hrest', hlen, hrest, jumpsNewline_of_plain hc hroom hb]

/-- A turn over an escape of one byte. -/
theorem lagging_escaped {jumps : Bool} {text r : List UInt8} {e : UInt8}
    (hrest : lex.rest = backslash :: e :: r) (hquote : backslash ≠ quote)
    (he : ¬ (e ≠ '0'.toUInt8 ∧ isOctal e = true)) (hroom : text.length < fluxTokenTextMax - 1)
    (h : Lagging quote jumps lex text) :
    Lagging quote jumps ((lex.advance 1).advance 1) (text ++ [escape e]) := by
  obtain ⟨-, j, hj, hbehind, hjumps⟩ := h
  have hnext : (lex.advance 1).rest = e :: r := (moves_advance lex 1).rest_of_cons hrest
  have hrest' : ((lex.advance 1).advance 1).rest = r := (moves_advance _ 1).rest_of_cons hnext
  have hlen : (text ++ [escape e]).length = text.length + 1 := List.length_append
  have hone : (lex.advance 1).Behind j := behind_advance (getElem?_of_rest hrest) (by decide) hbehind
  rw [hrest, jumpsNewline_of_backslash hquote hroom, if_neg he] at hjumps
  by_cases hnl : e = newline
  · refine ⟨by omega, j + 1, by omega, behind_of_jump (hnl ▸ getElem?_of_rest hnext) hone, ?_⟩
    rw [hjumps]
    simp [hnl]
  · refine ⟨by omega, j, by omega, behind_advance (getElem?_of_rest hnext) hnl hone, ?_⟩
    rw [hjumps, hrest', hlen]
    simp [hnl]

/-- A turn over an octal escape. -/
theorem lagging_octal {jumps : Bool} {text r : List UInt8} {d : UInt8}
    (hrest : lex.rest = backslash :: d :: r) (hquote : backslash ≠ quote)
    (hd : d ≠ '0'.toUInt8 ∧ isOctal d = true) (hroom : text.length < fluxTokenTextMax - 1)
    (h : Lagging quote jumps lex text) : Ensures anyFault
      (fun l => ∀ b, Lagging quote jumps l (text ++ [b])) ((lex.advance 1).advanceAtMost 3 isOctal) := by
  obtain ⟨-, j, hj, hbehind, hjumps⟩ := h
  obtain ⟨ds, hds, hall, hlen, hend⟩ := exists_octals r
  have hnext : (lex.advance 1).rest = d :: ds ++ r.drop ((r.take 2).takeWhile isOctal).length := by
    rw [(moves_advance lex 1).rest_of_cons hrest, List.cons_append, hds]
  have hall' : ∀ e ∈ d :: ds, isOctal e = true := List.forall_mem_cons.2 ⟨hd.2, hall⟩
  obtain ⟨l, hl, hmoves⟩ := advanceAtMost_moves (n := 3) hnext hall' (Nat.succ_le_succ hlen)
    (hend.imp_left fun h => by rw [List.length_cons, h])
  have hkeeps : Keeps (lex.advance 1) l := (keeps_advanceAtMost (by decide)).of_ok hl
  rw [hl]
  intro b
  have hlen' : (text ++ [b]).length = text.length + 1 := List.length_append
  refine ⟨by omega, j, by omega, ?_, ?_⟩
  · exact hkeeps.behind j (behind_advance (getElem?_of_rest hrest) (by decide) hbehind)
  · rw [hjumps, hrest, jumpsNewline_of_backslash hquote hroom, if_pos hd, hlen',
      hmoves.rest_of_append hnext]

/-- At a backslash that is the last byte of the source. -/
theorem stringTurn_of_last {text : List UInt8} (hrest : lex.rest = [backslash]) (hquote : backslash ≠ quote)
    (hroom : text.length < fluxTokenTextMax - 1) :
    stringTurn quote (lex, text) = .ok (some (lex.advanceOver backslash, text ++ [backslash])) := by
  have hlast : ¬ lex.pos + 1 < lex.sourceLen := by
    have hlen := length_rest lex
    rw [hrest, List.length_singleton] at hlen
    omega
  unfold stringTurn
  simp only [ahead_zero]
  show (if _ then _ else _) = _
  rw [if_pos (turn_goes_on hrest hquote hroom), byteAt_of_rest hrest]
  show (if _ then _ else _) = _
  rw [if_neg fun h => hlast h.2]
  rfl

theorem lagging_turn {jumps : Bool} {text : List UInt8} (h : Lagging quote jumps lex text) :
    Ensures anyFault (fun next => ∀ t, next = some t → Lagging quote jumps t.1 t.2)
      (stringTurn quote (lex, text)) := by
  by_cases hroom : text.length < fluxTokenTextMax - 1
  · rcases hrest : lex.rest with - | ⟨c, r⟩
    · have hend : lex.source[lex.pos]? = none := by rw [head?_rest, hrest, List.head?_nil]
      unfold stringTurn
      rw [ensures_ahead_bind, Nat.add_zero, hend]
      rintro t ⟨⟩
    by_cases hc : c = quote
    · rw [stringTurn_of_quote (hc ▸ hrest)]
      rintro t ⟨⟩
    by_cases hb : c ≠ backslash
    · rw [stringTurn_of_plain hrest hc hb hroom]
      rintro t ⟨⟩
      exact lagging_plain hrest hc hroom (.inl hb) h
    obtain rfl : c = backslash := not_not.1 hb
    rcases r with - | ⟨e, r⟩
    · rw [stringTurn_of_last hrest hc hroom]
      rintro t ⟨⟩
      exact lagging_plain hrest hc hroom (.inr rfl) h
    by_cases he : e ≠ '0'.toUInt8 ∧ isOctal e = true
    · rw [stringTurn_of_backslash hrest hc hroom, if_pos he]
      refine (lagging_octal hrest hc he hroom h).bind fun stop hstop => ?_
      rintro t ⟨⟩
      exact hstop _
    · rw [stringTurn_of_escaped hrest hc he hroom]
      rintro t ⟨⟩
      exact lagging_escaped hrest hc he hroom h
  · rw [stringTurn_of_full hroom]
    rintro t ⟨⟩

/-- The loop over a string ends at its quote or where the text is full. -/
theorem end_of_stringTurn {text r : List UInt8} (h : stringTurn quote (lex, text) = .ok none)
    (hrest : lex.rest = c :: r) : c = quote ∨ fluxTokenTextMax - 1 ≤ text.length := by
  by_contra hgo
  obtain ⟨hc, hfull⟩ := not_or.1 hgo
  have hroom : text.length < fluxTokenTextMax - 1 := Nat.not_le.1 hfull
  by_cases hb : c ≠ backslash
  · rw [stringTurn_of_plain hrest hc hb hroom] at h
    cases h
  obtain rfl : c = backslash := not_not.1 hb
  rcases r with - | ⟨e, r⟩
  · rw [stringTurn_of_last hrest hc hroom] at h
    cases h
  by_cases he : e ≠ '0'.toUInt8 ∧ isOctal e = true
  · rw [stringTurn_of_backslash hrest hc hroom, if_pos he] at h
    obtain ⟨stop, -, h⟩ := bind_eq_ok.1 h
    cases h
  · rw [stringTurn_of_escaped hrest hc he hroom] at h
    cases h

/-- The string at the lexer jumps a newline. -/
def StringJumps (lex : FluxLexer) : Prop :=
  ∃ quote r, lex.rest = quote :: r ∧ jumpsNewline quote 0 r = true

theorem scanString_behind (hc : lex.source[lex.pos]? = some c) (hne : c ≠ newline) (h : lex.Behind 0) :
    Ensures anyFault (fun r => ∃ j ≤ fluxTokenTextMax, r.2.Behind j ∧ (lex.StringJumps ↔ 0 < j))
      lex.fluxLexerScanString := by
  obtain ⟨r, hrest⟩ := exists_rest hc
  have hrest' : (lex.advance 1).rest = r := (moves_advance lex 1).rest_of_cons hrest
  have hjumps : lex.StringJumps ↔ jumpsNewline c 0 r = true := by
    refine ⟨?_, fun hr => ⟨c, r, hrest, hr⟩⟩
    rintro ⟨quote, r', hr', hr⟩
    obtain ⟨rfl, rfl⟩ := List.cons.inj (hr'.symm.trans hrest)
    exact hr
  have hstart : Lagging c (jumpsNewline c 0 r) (lex.advance 1) [] := by
    refine ⟨by decide, 0, Nat.le_refl _, behind_advance hc hne h, ?_⟩
    simp [hrest']
  have hloop : Ensures anyFault (fun t => Lagging c (jumpsNewline c 0 r) t.1 t.2 ∧
      stringTurn c t = .ok none) lex.stringEnd := by
    unfold stringEnd
    rw [ensures_byteAt_bind hc]
    refine (ensures_loop_of_keeps (I := fun t => Lagging c (jumpsNewline c 0 r) t.1 t.2) trivial
      (fun t ht => lagging_turn ht) hstart).with_eq.imp fun t ht => ⟨ht.1, exit_of_loop ht.2⟩
  refine hloop.bind fun t ht => (ensures_pure _ _ _).2 ?_
  obtain ⟨stop, text⟩ := t
  obtain ⟨⟨hfull, j, hj, hbehind, hlag⟩, hexit⟩ := ht
  have hmax : fluxTokenTextMax = fluxTokenTextMax - 1 + 1 := rfl
  simp only at hj hfull hbehind hlag
  rw [hjumps, hlag]
  split
  · next hlt =>
    obtain ⟨d, hd⟩ := exists_byte hlt
    obtain ⟨r', hr'⟩ := exists_rest hd
    rw [hr', jumpsNewline_of_end (end_of_stringTurn hexit hr'), decide_eq_true_iff]
    by_cases hnl : d = newline
    · refine ⟨j + 1, by omega, behind_of_jump (hnl ▸ hd) hbehind, ?_⟩
      simp [hnl]
    · refine ⟨j, by omega, behind_advance hd hnl hbehind, ?_⟩
      simp [hnl]
  · next hlt =>
    refine ⟨j, by omega, hbehind, ?_⟩
    rw [rest_of_le (Nat.not_lt.1 hlt)]
    simp [jumpsNewline.eq_def]

/-! ## Calls and runs -/

/-- The next token is a string that jumps a newline. -/
def JumpsNewline (lex : FluxLexer) : Prop :=
  ∃ l, lex.fluxLexerSkipWhitespaceAndComments = .ok l ∧ l.pos < l.sourceLen ∧
    l.scanner = .ok .string ∧ l.StringJumps

/-- A call puts the line behind exactly if it jumps a newline. -/
theorem next_behind {tok : FluxToken} (h : lex.Behind 0) (hnext : lex.fluxLexerNext = .ok (tok, l)) :
    ∃ j ≤ fluxTokenTextMax, l.Behind j ∧ (lex.JumpsNewline ↔ 0 < j) := by
  obtain ⟨stop, hskip, hscan⟩ := bind_eq_ok.1 hnext
  have hstop : stop.Behind 0 := (keeps_skip.of_ok hskip).behind 0 h
  by_cases hlt : stop.pos < stop.sourceLen
  · rw [if_neg (Nat.not_le.2 hlt)] at hscan
    obtain ⟨s, hs, hscan⟩ := bind_eq_ok.1 hscan
    have hopens := (scanner_opens stop).of_ok hs
    have hjumps : lex.JumpsNewline ↔ s = .string ∧ stop.StringJumps := by
      constructor
      · rintro ⟨stop', hskip', -, hs', hjumps⟩
        obtain rfl : stop = stop' := Except.ok.inj (hskip.symm.trans hskip')
        exact ⟨Except.ok.inj (hs.symm.trans hs'), hjumps⟩
      · rintro ⟨rfl, hjumps⟩
        exact ⟨stop, hskip, hlt, hs, hjumps⟩
    by_cases hstring : s = .string
    · subst hstring
      obtain ⟨c, hc, hne⟩ := hopens
      obtain ⟨j, hj, hbehind, hlag⟩ := (scanString_behind hc hne hstop).of_ok hscan
      exact ⟨j, hj, hbehind, by rw [hjumps, ← hlag]; simp⟩
    · have hkeeps := (Scanner.keeps hstring hopens).of_ok hscan
      refine ⟨0, Nat.zero_le _, hkeeps.behind 0 hstop, ?_⟩
      rw [hjumps]
      simp [hstring]
  · rw [if_pos (Nat.not_lt.1 hlt)] at hscan
    obtain ⟨-, rfl⟩ := Prod.mk.inj (Except.ok.inj hscan)
    refine ⟨0, Nat.zero_le _, hstop, ?_⟩
    constructor
    · rintro ⟨stop', hskip', hlt', -⟩
      obtain rfl : stop = stop' := Except.ok.inj (hskip.symm.trans hskip')
      exact absurd hlt' hlt
    · intro h
      cases h

end FluxLexer

namespace FluxLexer

variable {lex l : FluxLexer}

/-- The line and the column of the lexer's position are numbers that an `int` can hold. -/
def InRange (lex : FluxLexer) : Prop :=
  lineOf newline lex.passed < 2 ^ 31 ∧ colOf newline lex.passed < 2 ^ 31

theorem ofNat_of_toInt {i : Int32} {n : Nat} (h : i.toInt = n) : i = Int32.ofNat n ∧ n < 2 ^ 31 := by
  have hlt : n < 2 ^ 31 := by
    have := i.toInt_lt
    omega
  exact ⟨Int32.toInt_inj.1 (h.trans (Int32.toInt_ofNat_of_lt hlt).symm), hlt⟩

theorem exact_iff : lex.Exact ↔ lex.Behind 0 ∧ lex.InRange := by
  constructor
  · intro h
    obtain ⟨hline, hlineLt⟩ := ofNat_of_toInt h.line
    obtain ⟨hcol, hcolLt⟩ := ofNat_of_toInt h.col
    refine ⟨⟨?_, fun _ => hcol⟩, hlineLt, hcolLt⟩
    rw [hline]
    exact Int32.add_zero _
  · rintro ⟨hbehind, hline, hcol⟩
    constructor
    · rw [← Int32.toInt_ofNat_of_lt hline, ← hbehind.line]
      exact congrArg Int32.toInt (Int32.add_zero lex.line).symm
    · rw [← Int32.toInt_ofNat_of_lt hcol, hbehind.col rfl]

/-- A lexer that is behind by a few lines stands at a wrong line. -/
theorem not_exact_of_behind {j : Nat} (hj : 0 < j) (hmax : j ≤ fluxTokenTextMax) (h : lex.Behind j) :
    ¬ lex.Exact := by
  intro hexact
  obtain ⟨hline, -⟩ := ofNat_of_toInt hexact.line
  have hlag := h.line
  rw [← hline] at hlag
  have hzero : Int32.ofNat j = Int32.ofNat 0 := Int32.add_eq_left.1 hlag
  have hlt : j < 2 ^ 31 := Nat.lt_of_le_of_lt hmax (by decide)
  have hint := congrArg Int32.toInt hzero
  rw [Int32.toInt_ofNat_of_lt hlt, Int32.toInt_ofNat_of_lt (by decide)] at hint
  omega

/-- A call in front of a string returns. -/
theorem exists_next_of_jumps (h : lex.JumpsNewline) : ∃ tok l, lex.fluxLexerNext = .ok (tok, l) := by
  obtain ⟨l, hskip, hlt, hs, -⟩ := h
  obtain ⟨r, hr, -⟩ := exists_of_noFault (stringEnd_reaches hlt)
  rw [next_of_scanner hskip hlt hs]
  show ∃ tok l', l.fluxLexerScanString = _
  unfold fluxLexerScanString
  rw [hr]
  exact ⟨_, _, rfl⟩

/-- Calls that jump no newline keep the line and the column. -/
theorem calls_behind (hstart : lex.Behind 0)
    (h : ∀ n l, lex.fluxLexerCalls n = .ok l → ¬ l.JumpsNewline) {n : Nat}
    (hcalls : lex.fluxLexerCalls n = .ok l) : l.Behind 0 := by
  induction n generalizing l with
  | zero =>
    obtain rfl : lex = l := Except.ok.inj hcalls
    exact hstart
  | succ n ih =>
    obtain ⟨l', hl', hcalls⟩ := bind_eq_ok.1 hcalls
    obtain ⟨⟨tok, l''⟩, hnext, hcalls⟩ := bind_eq_ok.1 hcalls
    obtain rfl : l'' = l := Except.ok.inj hcalls
    obtain ⟨j, -, hbehind, hjumps⟩ := next_behind (ih hl') hnext
    obtain rfl : j = 0 := Nat.eq_zero_of_not_pos fun hj => h n l' hl' (hjumps.2 hj)
    exact hbehind

end FluxLexer

/-- After the initialization and after every call of `flux_lexer_next`, the lexer's line and column are
those of its position. -/
def PositionsExact (source : List UInt8) : Prop :=
  ∃ lex, fluxLexerInit source = .ok lex ∧ ∀ n l, lex.fluxLexerCalls n = .ok l → l.Exact

open FluxLexer in
/-- The positions are exact if and only if they fit in an `int` and no call jumps a newline. -/
theorem positionsExact_iff (source : List UInt8) :
    PositionsExact source ↔ ∀ lex n l, fluxLexerInit source = .ok lex → lex.fluxLexerCalls n = .ok l →
      l.InRange ∧ ¬ l.JumpsNewline := by
  constructor
  · rintro ⟨lex, hinit, hexact⟩ lex' n l hinit' hl
    obtain rfl : lex = lex' := Except.ok.inj (hinit.symm.trans hinit')
    obtain ⟨hbehind, hrange⟩ := exact_iff.1 (hexact n l hl)
    refine ⟨hrange, fun hjumps => ?_⟩
    obtain ⟨tok, l', hnext⟩ := exists_next_of_jumps hjumps
    obtain ⟨j, hmax, hlag, hj⟩ := next_behind hbehind hnext
    exact not_exact_of_behind (hj.1 hjumps) hmax hlag (hexact (n + 1) l' (calls_succ hl hnext))
  · intro h
    obtain ⟨lex, hinit, -, -⟩ := exists_of_noFault (fluxLexerInit_spec source)
    refine ⟨lex, hinit, fun n l hl => ?_⟩
    refine exact_iff.2 ⟨?_, (h lex n l hinit hl).1⟩
    exact calls_behind ((fluxLexerInit_keeps source).of_ok hinit)
      (fun n l hl => (h lex n l hinit hl).2) hl

/-- A string with an escaped newline: behind it the lexer is on the first line. -/
theorem escapedNewline_not_exact : ¬ PositionsExact [34, 92, 10, 34] := by
  rintro ⟨lex, hinit, hexact⟩
  obtain rfl : _ = lex := Except.ok.inj
    ((show fluxLexerInit [34, 92, 10, 34] = .ok ⟨[34, 92, 10, 34], 0, 1, 1, 0⟩ by decide).symm.trans hinit)
  have hcall := hexact 1 ⟨[34, 92, 10, 34], 4, 1, 5, 0⟩ (by decide)
  exact absurd hcall.line (by decide)

end FluxOs
