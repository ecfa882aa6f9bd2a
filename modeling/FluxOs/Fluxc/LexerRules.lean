import FluxOs.Fluxc.Scanners

/-!
# Rules for the movement of the lexer

`Reaches lex n lex'` says that `lex'` stands at least `n` bytes behind `lex` in the same source.  Every
loop of the lexer goes forward, so one rule for loops, `ensures_loop_of_reaches`, gives that it ends and
what holds where it does.
-/

namespace FluxOs

open Faulting

namespace FluxLexer

variable {lex l : FluxLexer} {k n : Nat} {p : UInt8 → Bool} {c : UInt8}

/-- `l` stands at least `n` bytes behind `lex` in the same source. -/
structure Reaches (lex : FluxLexer) (n : Nat) (l : FluxLexer) : Prop where
  source : l.source = lex.source
  forward : lex.pos + n ≤ l.pos
  inside : l.pos ≤ l.sourceLen

/-- The faults of a computation that has none. -/
def noFault (_ : LexFault) : Prop := False

theorem exists_of_noFault {α : Type} {Q : α → Prop} {x : Except LexFault α}
    (h : Ensures noFault Q x) : ∃ a, x = .ok a ∧ Q a := by
  cases x with
  | ok a => exact ⟨a, rfl, h⟩
  | error e => exact False.elim h

namespace Reaches

theorem refl (h : lex.pos ≤ lex.sourceLen) : Reaches lex 0 lex := ⟨rfl, Nat.le_refl _, h⟩

theorem sourceLen_eq (h : Reaches lex n l) : l.sourceLen = lex.sourceLen := by
  rw [sourceLen, h.source, sourceLen]

theorem trans {l' : FluxLexer} {m : Nat} (h : Reaches lex n l) (h' : Reaches l m l') :
    Reaches lex (n + m) l' := by
  refine ⟨h'.source.trans h.source, ?_, h'.inside⟩
  have := h.forward
  have := h'.forward
  omega

theorem mono {m : Nat} (h : Reaches lex n l) (hm : m ≤ n) : Reaches lex m l := by
  refine ⟨h.source, ?_, h.inside⟩
  have := h.forward
  omega

/-- A lexer that did not stay where it was has gone forward. -/
theorem of_ne (h : Reaches lex 0 l) (hne : l.pos ≠ lex.pos) : Reaches lex 1 l := by
  refine ⟨h.source, ?_, h.inside⟩
  have := h.forward
  omega

theorem remaining_lt (h : Reaches lex 1 l) : l.sourceLen - l.pos < lex.sourceLen - lex.pos := by
  have := h.forward
  have := h.inside
  have := h.sourceLen_eq
  omega

end Reaches

/-! ## Reads and single steps -/

theorem byteAt_eq {i : Nat} (h : lex.source[i]? = some c) : lex.byteAt i = .ok c := by
  rw [byteAt, h]
  rfl

theorem exists_byte {i : Nat} (h : i < lex.sourceLen) : ∃ c, lex.source[i]? = some c :=
  ⟨lex.source.get ⟨i, h⟩, List.getElem?_eq_getElem h⟩

theorem lt_sourceLen {i : Nat} (h : lex.source[i]? = some c) : i < lex.sourceLen :=
  (List.getElem?_eq_some_iff.1 h).1

/-- Looking ahead never faults. -/
@[simp] theorem ahead_eq (k : Nat) (p : UInt8 → Bool) :
    lex.ahead k p = .ok ((lex.source[lex.pos + k]?).any p) := by
  unfold ahead
  by_cases h : lex.pos + k < lex.sourceLen
  · obtain ⟨c, hc⟩ := exists_byte h
    rw [if_pos h, byteAt_eq hc, hc]
    rfl
  · rw [if_neg h, List.getElem?_eq_none (Nat.le_of_not_lt h)]
    rfl

theorem ensures_byteAt_bind {α : Type} {E : LexFault → Prop} {Q : α → Prop} {i : Nat}
    {f : UInt8 → Except LexFault α} (h : lex.source[i]? = some c) :
    Ensures E Q (lex.byteAt i >>= f) ↔ Ensures E Q (f c) := by
  rw [byteAt_eq h]
  rfl

theorem ensures_ahead_bind {α : Type} {E : LexFault → Prop} {Q : α → Prop}
    {f : Bool → Except LexFault α} :
    Ensures E Q (lex.ahead k p >>= f) ↔ Ensures E Q (f ((lex.source[lex.pos + k]?).any p)) := by
  rw [ahead_eq]
  rfl

theorem ahead_zero (p : UInt8 → Bool) : lex.ahead 0 p = .ok ((lex.source[lex.pos]?).any p) :=
  ahead_eq 0 p

theorem exists_of_ahead {i : Nat} (h : (lex.source[i]?).any p = true) :
    ∃ c, lex.source[i]? = some c ∧ p c = true := by
  obtain ⟨c, hc, hp⟩ := (Option.any_eq_true _ _).1 h
  exact ⟨c, hc, hp⟩

theorem reaches_advance (h : lex.pos + n ≤ lex.sourceLen) : Reaches lex n (lex.advance n) :=
  ⟨rfl, Nat.le_refl _, h⟩

theorem reaches_advanceLine (h : lex.pos < lex.sourceLen) : Reaches lex 1 lex.advanceLine :=
  ⟨rfl, Nat.le_refl _, h⟩

theorem reaches_advanceOver (c : UInt8) (h : lex.pos < lex.sourceLen) :
    Reaches lex 1 (lex.advanceOver c) := by
  unfold advanceOver
  split
  · exact reaches_advanceLine h
  · exact reaches_advance h

/-! ## Loops -/

/-- The rule of a loop of the lexer. -/
theorem ensures_loop_of_reaches {E : LexFault → Prop} {Q : FluxLexer → Prop}
    {body : FluxLexer → Except LexFault (Option FluxLexer)} (hpos : lex.pos ≤ lex.sourceLen)
    (hbody : ∀ l, Reaches lex 0 l →
      Ensures E (fun next => next.elim (Q l) fun t => Reaches l 1 t) (body l)) :
    Ensures E (fun l => Reaches lex 0 l ∧ Q l) (lex.loop body) := by
  refine ensures_loop (I := Reaches lex 0) (fun l => l.sourceLen - l.pos) (fun l hl => ?_)
    (Reaches.refl hpos) (Nat.lt_succ_self _)
  refine (hbody l hl).imp fun next hnext => ?_
  cases next with
  | none => exact ⟨hl, hnext⟩
  | some t =>
    have ht : Reaches l 1 t := hnext
    exact ⟨(hl.trans ht).mono (Nat.zero_le _), ht.remaining_lt⟩

/-- The rule of a loop that carries a value beside the lexer. -/
theorem ensures_loop_pair {α : Type} {turn : FluxLexer × α → Except LexFault (Option (FluxLexer × α))}
    (hturn : ∀ l a, Reaches lex n l →
      Ensures noFault (fun next => next.elim True fun t => Reaches l 1 t.1) (turn (l, a)))
    {a : α} {fuel : Nat} (hl : Reaches lex n l) (hfuel : l.sourceLen - l.pos < fuel) :
    Ensures noFault (fun s => Reaches lex n s.1) (Faulting.loop turn .diverged fuel (l, a)) := by
  refine ensures_loop (I := fun s => Reaches lex n s.1) (fun s => s.1.sourceLen - s.1.pos)
    (fun s hs => ?_) hl hfuel
  obtain ⟨l, a⟩ := s
  refine (hturn l a hs).imp fun next hnext => ?_
  cases next with
  | none => exact hs
  | some t =>
    have ht : Reaches l 1 t.1 := hnext
    exact ⟨(hs.trans ht).mono (Nat.le_add_right _ _), ht.remaining_lt⟩

theorem loop_of_exit {body : FluxLexer → Except LexFault (Option FluxLexer)}
    (h : body lex = .ok none) : lex.loop body = .ok lex :=
  loop_of_none h

/-- A loop over bytes of one class ends at a byte outside it. -/
theorem advanceWhile_spec (hpos : lex.pos ≤ lex.sourceLen) :
    Ensures noFault (fun l => Reaches lex 0 l ∧ (l.source[l.pos]?).any p = false) (lex.advanceWhile p) := by
  refine ensures_loop_of_reaches hpos fun l hl => ?_
  rw [ahead_zero]
  cases h : (l.source[l.pos]?).any p with
  | false => simp
  | true =>
    obtain ⟨c, hc, -⟩ := exists_of_ahead h
    exact reaches_advance (lt_sourceLen hc)

theorem advanceWhile_reaches (hpos : lex.pos ≤ lex.sourceLen) :
    Ensures noFault (Reaches lex 0) (lex.advanceWhile p) :=
  (advanceWhile_spec hpos).imp fun _ h => h.1

/-- A loop that starts at a byte of its class goes forward. -/
theorem advanceWhile_advances (h : (lex.source[lex.pos]?).any p = true) :
    Ensures noFault (Reaches lex 1) (lex.advanceWhile p) := by
  obtain ⟨c, hc, -⟩ := exists_of_ahead h
  refine (advanceWhile_spec (Nat.le_of_lt (lt_sourceLen hc))).imp fun l hl => ?_
  refine hl.1.of_ne fun hpos => ?_
  have hout := hl.2
  rw [hl.1.source, hpos, h] at hout
  cases hout

theorem advanceAtMost_reaches (hpos : lex.pos ≤ lex.sourceLen) :
    Ensures noFault (Reaches lex 0) (lex.advanceAtMost k p) := by
  refine (ensures_loop_of_reaches (Q := fun _ => True) hpos fun l _ => ?_).imp fun _ h => h.1
  rw [ahead_zero]
  cases h : (l.source[l.pos]?).any p with
  | false => exact trivial
  | true =>
    obtain ⟨c, hc, -⟩ := exists_of_ahead h
    show Ensures _ _ (if (true && decide (l.pos - lex.pos < k)) = true then _ else _)
    rw [ensures_ite]
    exact ⟨fun _ => reaches_advance (lt_sourceLen hc), fun _ => trivial⟩

theorem advanceOverWhile_reaches (hpos : lex.pos ≤ lex.sourceLen) :
    Ensures noFault (Reaches lex 0) (lex.advanceOverWhile p) := by
  refine (ensures_loop_of_reaches (Q := fun _ => True) hpos fun l _ => ?_).imp fun _ h => h.1
  rw [ahead_zero]
  cases h : (l.source[l.pos]?).any p with
  | false => exact trivial
  | true =>
    obtain ⟨c, hc, -⟩ := exists_of_ahead h
    show Ensures _ _ ((fun c => some (l.advanceOver c)) <$> l.byteAt l.pos)
    rw [byteAt_eq hc]
    exact reaches_advanceOver c (lt_sourceLen hc)

theorem advanceIf_reaches (hpos : lex.pos ≤ lex.sourceLen) :
    Ensures noFault (Reaches lex 0) (lex.advanceIf p) := by
  unfold advanceIf
  rw [ahead_zero]
  cases h : (lex.source[lex.pos]?).any p with
  | false => exact Reaches.refl hpos
  | true =>
    obtain ⟨c, hc, -⟩ := exists_of_ahead h
    exact (reaches_advance (lt_sourceLen hc)).mono (Nat.zero_le _)

/-! ## Blanks, comments and frontmatter -/

theorem blockCommentTurn_reaches (depth : Nat) :
    Ensures noFault (fun next => next.elim True fun t => Reaches l 1 t.1) (blockCommentTurn (l, depth)) := by
  unfold blockCommentTurn
  rw [ensures_ite]
  refine ⟨fun h => ?_, fun _ => trivial⟩
  obtain ⟨c, hc⟩ : ∃ c, l.source[l.pos]? = some c := exists_byte (by omega)
  obtain ⟨next, hnext⟩ : ∃ c, l.source[l.pos + 1]? = some c := exists_byte (by omega)
  have two : Reaches l 1 (l.advance 2) := (reaches_advance (by omega)).mono (by omega)
  rw [ensures_byteAt_bind hc, ensures_byteAt_bind hnext, ensures_ite, ensures_ite]
  exact ⟨fun _ => two, fun _ => ⟨fun _ => two, fun _ => reaches_advanceOver c (by omega)⟩⟩

theorem skipBlockComment_reaches (h : lex.pos + 2 ≤ lex.sourceLen) :
    Ensures noFault (Reaches lex 1) lex.fluxLexerSkipBlockComment := by
  have hstart : Reaches lex 2 (lex.advance 2) := reaches_advance h
  refine (ensures_bind _ _ _ _).2 ?_
  exact (ensures_loop_pair (fun l depth _ => blockCommentTurn_reaches depth) hstart
    (Nat.lt_succ_self _)).imp fun s hs => hs.mono (by omega)

theorem skipTurn_reaches (l : FluxLexer) :
    Ensures noFault (fun next => next.elim True (Reaches l 1)) l.skipTurn := by
  unfold skipTurn
  rw [ensures_ite]
  refine ⟨fun hlt => ?_, fun _ => trivial⟩
  obtain ⟨c, hc⟩ := exists_byte hlt
  rw [ensures_byteAt_bind hc, ensures_ite, ensures_ite]
  refine ⟨fun _ => reaches_advance hlt, fun _ => ⟨fun h => ?_, fun _ => trivial⟩⟩
  obtain ⟨hslash, hnext⟩ := h
  obtain ⟨next, hn⟩ := exists_byte hnext
  rw [ensures_byteAt_bind hn, ensures_ite, ensures_ite]
  refine ⟨fun _ => ?_, fun _ => ⟨fun _ => ?_, fun _ => trivial⟩⟩
  · refine (ensures_map _ _ _ _).2 (advanceWhile_advances ?_)
    rw [hc, hslash]
    decide
  · exact (ensures_map _ _ _ _).2 (skipBlockComment_reaches hnext)

/-- The blanks and comments before a token end where the loop over them would not go on. -/
theorem skip_spec (hpos : lex.pos ≤ lex.sourceLen) :
    Ensures noFault (fun l => Reaches lex 0 l ∧ l.skipTurn = .ok none)
      lex.fluxLexerSkipWhitespaceAndComments := by
  refine ensures_loop_of_reaches hpos fun l _ => ?_
  refine (skipTurn_reaches l).with_eq.imp fun next hnext => ?_
  cases next with
  | none => exact hnext.2
  | some t => exact hnext.1

/-- Skipping a second time does nothing. -/
theorem skip_of_exit (h : lex.skipTurn = .ok none) :
    lex.fluxLexerSkipWhitespaceAndComments = .ok lex :=
  loop_of_exit h

theorem not_isBlank_of_exit (h : lex.skipTurn = .ok none) (hc : lex.source[lex.pos]? = some c) :
    isBlank c = false := by
  have hturn : Ensures noFault (fun next => next = none) lex.skipTurn := by
    rw [h]
    rfl
  rw [skipTurn, if_pos (lt_sourceLen hc), ensures_byteAt_bind hc, ensures_ite] at hturn
  exact Bool.eq_false_iff.2 fun hb => nomatch hturn.1 hb

theorem frontmatterTurn_reaches (closed : Bool) :
    Ensures noFault (fun next => next.elim True fun t => Reaches l 1 t.1) (frontmatterTurn (l, closed)) := by
  unfold frontmatterTurn
  rw [ensures_ite]
  refine ⟨fun h => ?_, fun _ => trivial⟩
  obtain ⟨c, hc⟩ : ∃ c, l.source[l.pos]? = some c := exists_byte (by omega)
  obtain ⟨c1, hc1⟩ : ∃ c, l.source[l.pos + 1]? = some c := exists_byte (by omega)
  obtain ⟨c2, hc2⟩ : ∃ c, l.source[l.pos + 2]? = some c := exists_byte (by omega)
  have three : Reaches l 3 (l.advance 3) := reaches_advance (by omega)
  rw [ensures_byteAt_bind hc, ensures_byteAt_bind hc1, ensures_byteAt_bind hc2, ensures_ite]
  refine ⟨fun _ => ?_, fun _ => reaches_advanceOver c (by omega)⟩
  show Ensures noFault _ (ahead _ 0 _ >>= _)
  rw [ahead_zero]
  cases h : ((l.advance 3).source[(l.advance 3).pos]?).any (· = newline) with
  | false => exact three.mono (by omega)
  | true =>
    obtain ⟨c, hc, -⟩ := exists_of_ahead h
    exact (three.trans (reaches_advanceLine (lt_sourceLen hc))).mono (by omega)

end FluxLexer

open FluxLexer in
/-- The lexer of a source stands in it. -/
theorem fluxLexerInit_spec (source : List UInt8) :
    Ensures noFault (fun lex => lex.source = source ∧ lex.pos ≤ source.length)
      (fluxLexerInit source) := by
  unfold fluxLexerInit
  simp only [ensures_ite]
  refine ⟨fun h => ?_, fun _ => ⟨rfl, Nat.zero_le _⟩⟩
  have hlen : 3 ≤ source.length := by
    have hcut := congrArg List.length h
    rw [List.length_take, show (bytes "---").length = 3 from rfl] at hcut
    omega
  refine (ensures_bind _ _ _ _).2 ((ensures_loop_pair
    (fun l closed _ => frontmatterTurn_reaches closed) (reaches_advance hlen)
    (Nat.lt_succ_self _)).imp fun s hs => ?_)
  have hinside := hs.inside
  rw [hs.sourceLen_eq] at hinside
  exact ⟨hs.source, hinside⟩

end FluxOs
