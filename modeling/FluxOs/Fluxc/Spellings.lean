import FluxOs.Fluxc.LexerRules

/-!
# The lexer on a given spelling

What is left of the source in front of the lexer is `rest`.  `Moves lex n l` says that `l` stands exactly `n` bytes
behind `lex`, so that a loop of the lexer over a spelling is described by the length of what it goes over.
-/

namespace FluxOs

open Faulting

namespace FluxLexer

variable {lex l l' : FluxLexer} {k m n : Nat} {p : UInt8 → Bool} {c : UInt8} {ds r : List UInt8}

/-- The source from the position of the lexer on. -/
def rest (lex : FluxLexer) : List UInt8 := lex.source.drop lex.pos

/-- `l` stands `n` bytes behind `lex`, in the same source. -/
structure Moves (lex : FluxLexer) (n : Nat) (l : FluxLexer) : Prop where
  source : l.source = lex.source
  pos : l.pos = lex.pos + n

theorem Moves.refl (lex : FluxLexer) : Moves lex 0 lex := ⟨rfl, rfl⟩

theorem Moves.trans (h : Moves lex m l) (h' : Moves l n l') : Moves lex (m + n) l' := by
  refine ⟨h'.source.trans h.source, ?_⟩
  rw [h'.pos, h.pos, Nat.add_assoc]

theorem moves_advance (lex : FluxLexer) (n : Nat) : Moves lex n (lex.advance n) := ⟨rfl, rfl⟩

theorem moves_advanceOver (lex : FluxLexer) (c : UInt8) : Moves lex 1 (lex.advanceOver c) := by
  unfold advanceOver
  split
  · exact ⟨rfl, rfl⟩
  · exact ⟨rfl, rfl⟩

theorem Moves.rest_eq (h : Moves lex n l) : l.rest = lex.rest.drop n := by
  rw [rest, rest, h.source, h.pos, List.drop_drop]

theorem Moves.rest_of_append (h : Moves lex ds.length l) (hrest : lex.rest = ds ++ r) : l.rest = r := by
  rw [h.rest_eq, hrest, List.drop_left]

theorem Moves.rest_of_cons (h : Moves lex 1 l) (hrest : lex.rest = c :: r) : l.rest = r := by
  rw [h.rest_eq, hrest, List.drop_one, List.tail_cons]

theorem Moves.slice_eq (h : Moves lex n l) : l.slice lex.pos = lex.rest.take n := by
  rw [slice, rest, h.source, h.pos, Nat.add_sub_cancel_left]

theorem Moves.sourceLen_eq (h : Moves lex n l) : l.sourceLen = lex.sourceLen := congrArg List.length h.source

theorem getElem?_rest (lex : FluxLexer) (k : Nat) : lex.source[lex.pos + k]? = lex.rest[k]? := by
  rw [rest, List.getElem?_drop]

theorem head?_rest (lex : FluxLexer) : lex.source[lex.pos]? = lex.rest.head? := by
  rw [List.head?_eq_getElem?]
  exact getElem?_rest lex 0

theorem length_rest (lex : FluxLexer) : lex.rest.length = lex.sourceLen - lex.pos := List.length_drop ..

theorem rest_of_le (h : lex.sourceLen ≤ lex.pos) : lex.rest = [] := List.drop_eq_nil_of_le h

/-- A text that fits into a token is copied as it is. -/
theorem copyText_of_moves (h : Moves lex n l) (hn : n ≤ fluxTokenTextMax - 1) (hpos : l.pos ≤ l.sourceLen) :
    l.copyText lex.pos = .ok (lex.rest.take n) := by
  have hlt : n < 2 ^ 31 := Nat.lt_of_le_of_lt hn (by decide)
  have hint : (Int32.ofNat n).toInt = n := Int32.toInt_ofNat_of_lt hlt
  have hlen : l.pos - lex.pos = n := by rw [h.pos, Nat.add_sub_cancel_left]
  unfold copyText
  rw [hlen]
  simp only
  rw [if_neg, if_neg (Nat.not_lt.2 hpos), h.slice_eq]
  · have hclamp : (Int32.ofNat n).toNatClampNeg = n := by
      rw [← Int32.toNat_toInt, hint, Int.toNat_natCast]
    rw [hclamp, Nat.min_eq_left hn, List.take_take, Nat.min_self]
    rfl
  · rw [Int32.lt_iff_toInt_lt, hint]
    simp

/-! ## Loops over a spelling -/

theorem advance_zero (lex : FluxLexer) : lex.advance 0 = lex := by
  show ({ lex with pos := lex.pos, col := lex.col + 0 } : FluxLexer) = lex
  rw [Int32.add_zero]

theorem advance_advance (lex : FluxLexer) (m n : Nat) : (lex.advance m).advance n = lex.advance (m + n) := by
  unfold advance
  rw [Nat.add_assoc, Int32.ofNat_add, Int32.add_assoc]

/-- A loop over the bytes of a class goes over the longest spelling of them. -/
theorem advanceWhile_eq (hrest : lex.rest = ds ++ r) (hds : ∀ d ∈ ds, p d = true) (hr : r.head?.any p = false) :
    lex.advanceWhile p = .ok (lex.advance ds.length) := by
  have hfuel : ds.length < lex.sourceLen - lex.pos + 1 := by
    rw [← length_rest, hrest, List.length_append]
    omega
  refine LeavesWithin.loop_eq ?_ hfuel
  clear hfuel
  induction ds generalizing lex with
  | nil =>
    rw [List.length_nil, advance_zero]
    apply LeavesWithin.here
    rw [ahead_zero, head?_rest, hrest, List.nil_append, hr]
    rfl
  | cons d ds ih =>
    have hl := ih ((moves_advance lex 1).rest_of_cons hrest) fun e he => hds e (List.mem_cons_of_mem _ he)
    rw [advance_advance, Nat.add_comm] at hl
    refine .next ?_ hl
    rw [ahead_zero, head?_rest, hrest]
    simp [hds d List.mem_cons_self, bind, Except.bind, pure, Except.pure]

/-- A loop with a counter goes over the longest spelling that is short enough. -/
theorem advanceAtMost_moves (hrest : lex.rest = ds ++ r) (hds : ∀ d ∈ ds, p d = true) (hn : ds.length ≤ n)
    (hend : ds.length = n ∨ r.head?.any p = false) :
    ∃ l, lex.advanceAtMost n p = .ok l ∧ Moves lex ds.length l := by
  have hfuel : ds.length < lex.sourceLen - lex.pos + 1 := by
    rw [← length_rest, hrest, List.length_append]
    omega
  suffices hleaves : ∃ l, LeavesWithin _ ds.length lex l ∧ Moves lex ds.length l by
    obtain ⟨l, hl, hmoves⟩ := hleaves
    exact ⟨l, hl.loop_eq hfuel, hmoves⟩
  clear hfuel
  generalize hstart : lex.pos = start
  -- the bytes gone over so far are those between the start and the position
  have hgone : lex.pos - start + ds.length ≤ n := by omega
  have hlast : lex.pos - start + ds.length = n ∨ r.head?.any p = false := by
    rw [hstart, Nat.sub_self, Nat.zero_add]
    exact hend
  have hle : start ≤ lex.pos := Nat.le_of_eq hstart.symm
  clear hstart hn hend
  induction ds generalizing lex with
  | nil =>
    refine ⟨lex, .here ?_, Moves.refl lex⟩
    rw [ahead_zero, head?_rest, hrest, List.nil_append]
    rcases hlast with hfull | hr
    · have hnot : ¬ lex.pos - start < n := by
        simp only [List.length_nil] at hfull
        omega
      simp [hnot, bind, Except.bind, pure, Except.pure]
    · rw [hr]
      rfl
  | cons d ds ih =>
    have hstep := moves_advance lex 1
    have hpos : (lex.advance 1).pos - start = lex.pos - start + 1 := by
      rw [hstep.pos]
      omega
    simp only [List.length_cons] at hgone hlast
    have hlt : lex.pos - start < n := by omega
    obtain ⟨l, hl, hmoves⟩ := ih (hstep.rest_of_cons hrest) (fun e he => hds e (List.mem_cons_of_mem _ he))
      (by omega) (hlast.imp_left fun h => by omega) (by rw [hstep.pos]; omega)
    refine ⟨l, .next ?_ hl, ?_⟩
    · rw [ahead_zero, head?_rest, hrest]
      simp [hds d List.mem_cons_self, hlt, bind, Except.bind, pure, Except.pure]
    · rw [List.length_cons, Nat.add_comm]
      exact hstep.trans hmoves

end FluxLexer

end FluxOs
