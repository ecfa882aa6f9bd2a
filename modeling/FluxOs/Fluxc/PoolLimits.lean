import FluxOs.Fluxc.TokenStreams

/-!
# The parser and its node pool

Every loop of the parser consumes tokens, so that `flux_parser_parse` ends on every stream that ends in a
repeated `TOK_EOF`.  A constructor returns `NULL` once the pool is used up; all callers check this but the
one for a region, whose metadata is then stored through `NULL`.  The proofs follow the position in the
stream: `Asked` relates the pool to the nodes that were asked for, `Reached` says where the parser is.
-/

namespace FluxOs

open Faulting FluxParser

namespace TokenStream

variable {s : TokenStream} {p q : FluxParser Nat} {k r j m n fuel : Nat} {place : Place}

/-! ## Going over the stream -/

theorem pastNewlines_induction {P : Nat → Prop} (hstep : ∀ j, s.type j = .NEWLINE → P j → P (j + 1)) (h : P k) :
    P (s.pastNewlines k) := by
  unfold pastNewlines
  generalize s.length - k = n
  induction n generalizing k with
  | zero => exact h
  | succ n ih =>
    unfold pastNewlinesOf
    split
    · next hnew => exact ih (hstep k hnew h)
    · exact h

theorem le_pastNewlines : k ≤ s.pastNewlines k :=
  pastNewlines_induction (fun _ _ h => Nat.le_succ_of_le h) (Nat.le_refl k)

theorem pastNewlines_of_newline (h : s.type k = .NEWLINE) : s.pastNewlines k = s.pastNewlines (k + 1) := by
  have hlt : k < s.length := lt_length (by simp [h])
  have hsub : s.length - k = s.length - (k + 1) + 1 := by omega
  rw [pastNewlines, hsub, pastNewlinesOf, if_pos h]
  rfl

theorem pastNewlines_of_ne (h : s.type k ≠ .NEWLINE) : s.pastNewlines k = k := by
  unfold pastNewlines
  cases s.length - k with
  | zero => rfl
  | succ n => rw [pastNewlinesOf, if_neg h]

/-- Every region that sets a field in front of `k` has a node. -/
def ClearUpTo (s : TokenStream) (k : Nat) : Prop := ∀ r j, s.SetsField r j → j < k → s.requested r < astPoolSize

theorem ClearUpTo.succ (h : s.ClearUpTo k) (hk : ∀ r, s.SetsField r k → s.requested r < astPoolSize) :
    s.ClearUpTo (k + 1) := by
  intro r j hset hlt
  rcases Nat.eq_or_lt_of_le (Nat.le_of_lt_succ hlt) with rfl | hlt
  · exact hk r hset
  · exact h r j hset hlt

theorem ClearUpTo.succ_of_not_entry (h : s.ClearUpTo k) (hk : ¬ s.EntryAt k) : s.ClearUpTo (k + 1) :=
  h.succ fun _ hset => absurd hset.entry hk

theorem not_entryAt_of_level (h : s.level k ≠ 0) : ¬ s.EntryAt k := by
  rintro ⟨hkey, -⟩
  exact h (level_eq_zero (by simp [hkey]))

/-- The parser got to `k` and goes on in `place`, which is the place of the token while the pool has room. -/
structure Reached (s : TokenStream) (k : Nat) (place : Place) : Prop where
  reached : ∀ j, j < k → s.type j ≠ .EOF
  clear : s.ClearUpTo k
  place : s.Ends k ∨ s.placeAt k ≠ .region ∧ (s.requested k < astPoolSize → s.placeAt k = place)

namespace Reached

theorem of_ends {place' : Place} (h : s.Reached k place) (hends : s.Ends k) : s.Reached k place' :=
  ⟨h.reached, h.clear, .inl hends⟩

theorem of_full {place' : Place} (h : s.Reached k place) (hfull : astPoolSize ≤ s.requested k) :
    s.Reached k place' :=
  ⟨h.reached, h.clear, h.place.imp_right fun hplace => ⟨hplace.1, fun hlt => absurd hfull (Nat.not_le.2 hlt)⟩⟩

theorem reached_succ (h : s.Reached k place) (hk : s.type k ≠ .EOF) (j : Nat) (hlt : j < k + 1) :
    s.type j ≠ .EOF := by
  rcases Nat.eq_or_lt_of_le (Nat.le_of_lt_succ hlt) with rfl | hlt
  · exact hk
  · exact h.reached j hlt

theorem succ {place' : Place} (h : s.Reached k place) (hends : ¬ s.Ends k)
    (hplace : s.placeAt k = place → s.placeAt (k + 1) = place') : s.Reached (k + 1) place' := by
  obtain ⟨hregion, hroom⟩ := h.place.resolve_left hends
  refine ⟨h.reached_succ (type_ne_of_not_ends hends), h.clear.succ fun r hset => ?_, .inr ⟨?_, fun hlt => ?_⟩⟩
  · exact absurd hset.placeAt_eq hregion
  · rw [placeAt_succ_of_not_ends hends]
    split_ifs
    · decide
    · exact hregion
  · exact hplace (hroom (Nat.lt_of_le_of_lt (requested_mono (Nat.le_succ k)) hlt))

/-- Behind a token that is no section heading the parser stays in its place, unless it skips a part. -/
theorem next (h : s.Reached k place) (hends : ¬ s.Ends k) (hlevel : 3 ≤ s.level k → place ≠ .module) :
    s.Reached (k + 1) place := by
  refine h.succ hends fun hk => ?_
  rw [placeAt_succ_of_not_ends hends, hk, if_neg fun h => hlevel h.1 h.2]

/-- A heading of level 3 or more outside of sections starts a part that is skipped. -/
theorem next_skipped (h : s.Reached k .module) (hends : ¬ s.Ends k) (hlevel : 3 ≤ s.level k) :
    s.Reached (k + 1) .skipped := by
  refine h.succ hends fun hk => ?_
  rw [placeAt_succ_of_not_ends hends, hk, if_pos ⟨hlevel, rfl⟩]

theorem next_module (h : s.Reached k place) (hlevel : s.level k = 1) : s.Reached (k + 1) .module := by
  have hne : s.level k ≠ 0 := by simp [hlevel]
  have hplace : s.placeAt (k + 1) = .module := by
    show s.placeAfter _ _ = _
    rw [placeAfter, if_pos hlevel]
  refine ⟨h.reached_succ fun heof => hne (level_eq_zero (by simp [heof])),
    h.clear.succ_of_not_entry (not_entryAt_of_level hne), .inr ⟨?_, fun _ => hplace⟩⟩
  rw [hplace]
  decide

theorem next_section (h : s.Reached k place) (hlevel : s.level k = 2) (hregion : s.sectionPlace k ≠ .region) :
    s.Reached (k + 1) (s.sectionPlace k) := by
  have hne : s.level k ≠ 0 := by simp [hlevel]
  have hplace := placeAt_succ_of_section hlevel
  refine ⟨h.reached_succ fun heof => hne (level_eq_zero (by simp [heof])),
    h.clear.succ_of_not_entry (not_entryAt_of_level hne), .inr ⟨?_, fun _ => hplace⟩⟩
  rw [hplace]
  exact hregion

theorem pastNewlines (h : s.Reached k place) :
    s.Reached (s.pastNewlines k) place ∧ s.requested (s.pastNewlines k) = s.requested k := by
  refine pastNewlines_induction (P := fun j => s.Reached j place ∧ s.requested j = s.requested k)
    (fun j hnew hj => ?_) ⟨h, rfl⟩
  have hlevel : s.level j = 0 := level_eq_zero (by simp [hnew])
  refine ⟨hj.1.next ?_ ?_, ?_⟩
  · simp [Ends, hnew, hlevel]
  · simp [hlevel]
  · have hnone : s.nodesAt j = 0 := by simp [nodesAt, EntryAt, hlevel, hnew]
    show s.requested j + s.nodesAt j = _
    rw [hnone, Nat.add_zero, hj.2]

end Reached

/-! ## The parser on the stream -/

/-- The parser holds token `k`, and so far `n` nodes were asked for. -/
structure Asked (s : TokenStream) (p : FluxParser Nat) (k n : Nat) : Prop where
  source : p.source = some (k + 1, s.fns)
  token : p.peekTok = some (s.token k)
  pool : p.pool = min astPoolSize n

/-- What a constructor of nodes returns: the node is `NULL` when the pool was used up. -/
structure Made (s : TokenStream) (k n : Nat) (r : Option AstNode × FluxParser Nat) : Prop where
  asked : s.Asked r.2 k (n + 1)
  none_iff : r.1 = none ↔ astPoolSize ≤ n

/-- The only fault of the parser, and what brings it about. -/
def NullField (s : TokenStream) (fault : ParseFault) : Prop := fault = .nullNode ∧ ¬ s.FieldsHaveNodes

namespace Asked

variable {fields : AstFields}

theorem peekType (h : s.Asked p k n) : p.parserPeekType = s.type k := by
  rw [parserPeekType, h.token]
  rfl

theorem text (h : s.Asked p k n) : p.parserPeekText = s.text k := by
  rw [parserPeekText, h.token]
  rfl

theorem check (h : s.Asked p k n) (type : TokenType) : p.parserCheck type = decide (s.type k = type) := by
  rw [parserCheck, h.peekType]

theorem headingLevel (h : s.Asked p k n) : p.headingLevel = s.level k := by
  rw [FluxParser.headingLevel, h.check, parserPeekHeading, h.token, level]
  simp

theorem ends_iff (h : s.Asked p k n) : (p.parserCheck .EOF ∨ p.atSection) ↔ s.Ends k := by
  rw [h.check, atSection, h.headingLevel, Ends]
  simp

theorem next (h : s.Asked p k n) : Ensures s.NullField (fun q => s.Asked q (k + 1) n) p.parserNext := by
  unfold parserNext
  rw [h.source, h.token]
  exact ⟨rfl, rfl, h.pool⟩

theorem alloc (h : s.Asked p k n) (fields : AstFields) : s.Made k n (p.astAlloc fields) := by
  have hpool := h.pool
  unfold astAlloc
  split
  · refine ⟨⟨h.source, h.token, ?_⟩, iff_of_false (Option.some_ne_none _) ?_⟩
    · show p.pool + 1 = _
      omega
    · omega
  · refine ⟨⟨h.source, h.token, ?_⟩, iff_of_true rfl ?_⟩
    · show p.pool = _
      omega
    · omega

/-- What was asked for is what the stream requests, or the pool was used up before. -/
theorem settle (h : s.Asked p k (s.requested j + m)) (hle : j ≤ k)
    (heq : s.requested j < astPoolSize → s.requested k = s.requested j + m) : s.Asked p k (s.requested k) := by
  refine ⟨h.source, h.token, h.pool.trans ?_⟩
  have hmono := requested_mono (s := s) hle
  by_cases hroom : s.requested j < astPoolSize
  · rw [heq hroom]
  · omega

end Asked

/-- The parser holds token `k`, goes on in `place`, and still has to ask for `c` of the nodes that the tokens
in front of `k` call for. -/
structure Owes (s : TokenStream) (p : FluxParser Nat) (k c : Nat) (place : Place) : Prop where
  asked : ∃ j m, j ≤ k ∧ s.Asked p k (s.requested j + m) ∧
    (s.requested j < astPoolSize → s.requested k = s.requested j + m + c)
  reached : s.Reached k place

/-- The parser holds token `k`, goes on in `place`, and asked for the nodes that the tokens in front call
for. -/
structure Stands (s : TokenStream) (p : FluxParser Nat) (k : Nat) (place : Place) : Prop where
  asked : s.Asked p k (s.requested k)
  reached : s.Reached k place

theorem Owes.stands (h : s.Owes p k 0 place) : s.Stands p k place := by
  obtain ⟨j, m, hle, hasked, heq⟩ := h.asked
  exact ⟨hasked.settle hle heq, h.reached⟩

theorem Stands.owes (h : s.Stands p k place) : s.Owes p k 0 place :=
  ⟨⟨k, 0, Nat.le_refl k, h.asked, fun _ => rfl⟩, h.reached⟩

/-- A node that is owed is made, or the pool is used up and nothing more can be asked for. -/
theorem Owes.alloc {c : Nat} (h : s.Owes p k (c + 1) place) (fields : AstFields) :
    s.Owes (p.astAlloc fields).2 k c place ∧
      ((p.astAlloc fields).1 = none → ∀ place', s.Stands (p.astAlloc fields).2 k place') := by
  obtain ⟨j, m, hle, hasked, heq⟩ := h.asked
  have hmade := hasked.alloc fields
  refine ⟨⟨⟨j, m + 1, hle, hmade.asked, fun hroom => ?_⟩, h.reached⟩, fun hnone place' => ?_⟩
  · have := heq hroom
    omega
  · have hfull := hmade.none_iff.1 hnone
    have hk : astPoolSize ≤ s.requested k := by
      by_cases hroom : s.requested j < astPoolSize
      · have := heq hroom
        omega
      · exact Nat.le_trans (Nat.not_lt.1 hroom) (requested_mono hle)
    refine ⟨⟨hmade.asked.source, hmade.asked.token, ?_⟩, h.reached.of_full hk⟩
    rw [hmade.asked.pool]
    omega

/-! ## Loops -/

/-- The tokens that the parser has not read. -/
def remaining (s : TokenStream) (p : FluxParser Nat) : Nat :=
  match p.source with
  | some (k, _) => s.length + 1 - k
  | none => 0

theorem Asked.remaining_eq (h : s.Asked p k n) : s.remaining p = s.length - k := by
  unfold remaining
  rw [h.source]
  show s.length + 1 - (k + 1) = _
  omega

/-- The rule of the loops of the parser: a turn that does not leave the loop goes on in the stream. -/
theorem ensures_turns {σ : Type} {turn : σ → Except ParseFault (Option σ)} {I : σ → Nat → Prop} {X : Nat → Prop}
    (parserOf : σ → FluxParser Nat) (hasked : ∀ t k, I t k → ∃ n, s.Asked (parserOf t) k n)
    (hturn : ∀ t k, I t k → Ensures s.NullField
      (fun next => next.elim (X k) fun t' => k < s.length ∧ ∃ j, k < j ∧ I t' j) (turn t))
    {t : σ} (h : I t k) (hfuel : s.length < fuel) :
    Ensures s.NullField (fun t' => ∃ j, k ≤ j ∧ I t' j ∧ X j) (FluxParser.loop fuel turn t) := by
  have hmeasure (t : σ) (k : Nat) (h : I t k) : s.remaining (parserOf t) = s.length - k := by
    obtain ⟨n, hn⟩ := hasked t k h
    exact hn.remaining_eq
  refine ensures_loop (I := fun t => ∃ j, k ≤ j ∧ I t j) (fun t => s.remaining (parserOf t)) ?_
    ⟨k, Nat.le_refl k, h⟩ ?_
  · rintro t ⟨j, hle, hj⟩
    refine (hturn t j hj).imp fun next hnext => ?_
    cases next with
    | none => exact ⟨j, hle, hj, hnext⟩
    | some t' =>
      obtain ⟨hlt, i, hi, ht'⟩ := hnext
      refine ⟨⟨i, by omega, ht'⟩, ?_⟩
      rw [hmeasure t j hj, hmeasure t' i ht']
      omega
  · rw [hmeasure t k h]
    omega

theorem Asked.skipNewlines (h : s.Asked p k n) (hfuel : s.length < fuel) :
    Ensures s.NullField (fun q => s.Asked q (s.pastNewlines k) n) (p.parserSkipNewlines fuel) := by
  refine (ensures_turns (I := fun q j => s.Asked q j n ∧ s.pastNewlines j = s.pastNewlines k)
    (X := fun j => s.type j ≠ .NEWLINE) id (fun q j hj => ⟨n, hj.1⟩) (fun q j hj => ?_) ⟨h, rfl⟩ hfuel).imp ?_
  · rw [hj.1.check]
    by_cases hnew : s.type j = .NEWLINE
    · rw [if_pos (by simp [hnew]), ensures_map]
      refine hj.1.next.imp fun q hq => ⟨lt_length (by simp [hnew]), j + 1, Nat.lt_succ_self j, hq, ?_⟩
      rw [← pastNewlines_of_newline hnew, hj.2]
    · rw [if_neg (by simp [hnew])]
      exact hnew
  · rintro q ⟨j, -, ⟨hq, hpast⟩, hne⟩
    rw [← hpast, pastNewlines_of_ne hne]
    exact hq

theorem Owes.skipNewlines {c : Nat} (h : s.Owes p k c place) (hfuel : s.length < fuel) :
    Ensures s.NullField (fun q => s.Owes q (s.pastNewlines k) c place) (p.parserSkipNewlines fuel) := by
  obtain ⟨hreached, hrequested⟩ := h.reached.pastNewlines
  obtain ⟨j, m, hle, hasked, heq⟩ := h.asked
  refine (hasked.skipNewlines hfuel).imp fun q hq => ⟨⟨j, m, Nat.le_trans hle le_pastNewlines, hq, ?_⟩, hreached⟩
  rw [hrequested]
  exact heq

theorem Stands.skipToSection (h : s.Stands p k .skipped) (hfuel : s.length < fuel) :
    Ensures s.NullField (fun q => ∃ j, k ≤ j ∧ s.Stands q j .module) (p.parserSkipToSection fuel) := by
  refine (ensures_turns (I := fun q j => s.Stands q j .skipped) (X := s.Ends) id
    (fun q j hj => ⟨_, hj.asked⟩) (fun q j hj => ?_) h hfuel).imp ?_
  · by_cases hends : s.Ends j
    · rw [if_pos (hj.asked.ends_iff.2 hends)]
      exact hends
    · rw [if_neg fun h => hends (hj.asked.ends_iff.1 h), ensures_map]
      have hlt := lt_length (type_ne_of_not_ends hends)
      refine hj.asked.next.imp fun q hq => ⟨hlt, j + 1, Nat.lt_succ_self j, ?_, ?_⟩
      · refine Asked.settle (m := 0) hq (Nat.le_succ j) fun hroom => ?_
        have hplace := (hj.reached.place.resolve_left hends).2 hroom
        have hnone : s.nodesAt j = 0 := by
          rw [nodesAt, if_neg fun h => hends (.inr (.inr h)), hplace]
          simp
        show s.requested j + s.nodesAt j = _
        rw [hnone]
      · exact hj.reached.next hends fun _ => by simp
  · rintro q ⟨j, hle, hq, hends⟩
    exact ⟨j, hle, hq.asked, hq.reached.of_ends hends⟩

/-! ## Tokens of a body -/

theorem nodesAt_code (hcode : s.type k = .CODE_BLOCK) (hplace : s.placeAt k = .module ∨ s.placeAt k = .body) :
    s.nodesAt k = 1 := by
  rw [nodesAt, level_eq_zero (by simp [hcode]), if_neg (by decide), if_pos hcode, if_pos hplace]

theorem nodesAt_entry (hentry : s.EntryAt k) (hplace : s.placeAt k ≠ .skipped) : s.nodesAt k = 1 := by
  rw [nodesAt, level_eq_zero (by simp [hentry.1]), if_neg (by decide), if_neg (by simp [hentry.1]), if_pos hentry,
    if_neg hplace]

theorem nodesAt_other (hlevel : s.level k ≠ 2) (hcode : s.type k ≠ .CODE_BLOCK) (hentry : ¬ s.EntryAt k) :
    s.nodesAt k = 0 := by
  rw [nodesAt, if_neg hlevel, if_neg hcode, if_neg hentry]

theorem not_ends_of_level (heof : s.type k ≠ .EOF) (hlevel : s.level k = 0) : ¬ s.Ends k := by
  simp [Ends, heof, hlevel]

/-- The next token, behind one that calls for no nodes. -/
theorem Owes.next {c : Nat} (h : s.Owes p k c place) (hends : ¬ s.Ends k) (hcode : s.type k ≠ .CODE_BLOCK)
    (hentry : ¬ s.EntryAt k) (hlevel : 3 ≤ s.level k → place ≠ .module) :
    Ensures s.NullField (fun q => s.Owes q (k + 1) c place) p.parserNext := by
  obtain ⟨j, m, hle, hasked, heq⟩ := h.asked
  have hnone := nodesAt_other (fun h => hends (.inr (.inr h))) hcode hentry
  refine hasked.next.imp fun q hq => ⟨⟨j, m, Nat.le_succ_of_le hle, hq, fun hroom => ?_⟩, h.reached.next hends hlevel⟩
  show s.requested k + s.nodesAt k = _
  rw [hnone, Nat.add_zero, heq hroom]

theorem Stands.next (h : s.Stands p k place) (hends : ¬ s.Ends k) (hcode : s.type k ≠ .CODE_BLOCK)
    (hentry : ¬ s.EntryAt k) (hlevel : 3 ≤ s.level k → place ≠ .module) :
    Ensures s.NullField (fun q => s.Stands q (k + 1) place) p.parserNext :=
  (h.owes.next hends hcode hentry hlevel).imp fun _ hq => hq.stands

/-- The next token behind a code block: the node of the code is owed. -/
theorem Stands.next_code (h : s.Stands p k place) (hcode : s.type k = .CODE_BLOCK)
    (hplace : place = .module ∨ place = .body) :
    Ensures s.NullField (fun q => s.Owes q (k + 1) 1 place) p.parserNext := by
  have hends : ¬ s.Ends k := not_ends_of_level (by simp [hcode]) (level_eq_zero (by simp [hcode]))
  refine h.asked.next.imp fun q hq => ⟨⟨k, 0, Nat.le_succ k, hq, fun hroom => ?_⟩, h.reached.next hends ?_⟩
  · have hk := (h.reached.place.resolve_left hends).2 hroom
    show s.requested k + s.nodesAt k = _
    rw [nodesAt_code hcode (hk ▸ hplace)]
  · rw [level_eq_zero (by simp [hcode])]
    exact fun h => absurd h (by decide)

/-- The next token behind a key: the node of the entry is owed if it has a value. -/
theorem Stands.next_key (h : s.Stands p k place) (hkey : s.type k = .META_KEY) (hplace : place ≠ .skipped) :
    Ensures s.NullField (fun q => s.Owes q (k + 1) (if s.type (k + 1) = .META_VALUE then 1 else 0) place)
      p.parserNext := by
  have hzero : s.level k = 0 := level_eq_zero (by simp [hkey])
  have hends : ¬ s.Ends k := not_ends_of_level (by simp [hkey]) hzero
  refine h.asked.next.imp fun q hq => ⟨⟨k, 0, Nat.le_succ k, hq, fun hroom => ?_⟩, h.reached.next hends ?_⟩
  · have hk := (h.reached.place.resolve_left hends).2 hroom
    show s.requested k + s.nodesAt k = _
    split_ifs with hvalue
    · rw [nodesAt_entry ⟨hkey, hvalue⟩ (hk ▸ hplace)]
    · rw [nodesAt_other (by simp [hzero]) (by simp [hkey]) fun h => hvalue h.2]
  · rw [hzero]
    exact fun h => absurd h (by decide)

theorem Owes.next_value {c : Nat} (h : s.Owes p k c place) (hvalue : s.type k = .META_VALUE) :
    Ensures s.NullField (fun q => s.Owes q (k + 1) c place) p.parserNext := by
  have hzero : s.level k = 0 := level_eq_zero (by simp [hvalue])
  refine h.next (not_ends_of_level (by simp [hvalue]) hzero) (by simp [hvalue]) (by simp [EntryAt, hvalue]) ?_
  rw [hzero]
  exact fun h => absurd h (by decide)

/-- The token behind the heading of a section: the nodes of the section are owed. -/
theorem Stands.next_section (h : s.Stands p k place) (hlevel : s.level k = 2)
    (hregion : s.sectionPlace k ≠ .region) :
    Ensures s.NullField (fun q => s.Owes q (k + 1) (s.sectionNodes k) (s.sectionPlace k)) p.parserNext := by
  refine h.asked.next.imp fun q hq => ⟨⟨k, 0, Nat.le_succ k, hq, fun _ => ?_⟩, h.reached.next_section hlevel hregion⟩
  show s.requested k + s.nodesAt k = _
  rw [nodesAt, if_pos hlevel, Nat.add_zero]

/-- The branch of the loops that reads an entry of metadata. -/
theorem Stands.entry {α : Type} {F G : FluxParser Nat → Except ParseFault α} {Q : α → Prop}
    (h : s.Stands p k place) (hkey : s.type k = .META_KEY) (hplace : place ≠ .skipped)
    (hF : ∀ q, s.Owes q (k + 2) 1 place → Ensures s.NullField Q (F q))
    (hG : ∀ q, s.Stands q (k + 1) place → Ensures s.NullField Q (G q)) :
    Ensures s.NullField Q (do
      let p ← p.parserNext
      if p.parserCheck .META_VALUE then
        let p ← p.parserNext
        F p
      else G p) := by
  refine (h.next_key hkey hplace).bind fun p hp => ?_
  obtain ⟨_, _, _, hasked, _⟩ := hp.asked
  rw [hasked.check]
  by_cases hvalue : s.type (k + 1) = .META_VALUE
  · rw [if_pos (by simp [hvalue])]
    rw [if_pos hvalue] at hp
    exact (hp.next_value hvalue).bind fun p hp => hF p hp
  · rw [if_neg (by simp [hvalue])]
    rw [if_neg hvalue] at hp
    exact hG p hp.stands

/-! ## Functions, agents and tiles -/

variable {func body : AstNode}

theorem functionTurn_stands (h : s.Stands p k .body) (hfuel : s.length < fuel) :
    Ensures s.NullField (fun next => next.elim (s.Ends k) fun t => k < s.length ∧ ∃ j, k < j ∧ s.Stands t.1 j .body)
      (functionTurn fuel (p, func, body)) := by
  unfold functionTurn
  simp only
  by_cases hends : s.Ends k
  · rw [if_pos (h.asked.ends_iff.2 hends)]
    exact hends
  have hlt := lt_length (type_ne_of_not_ends hends)
  rw [if_neg fun hp => hends (h.asked.ends_iff.1 hp), h.asked.check, h.asked.check]
  by_cases hcode : s.type k = .CODE_BLOCK
  · rw [if_pos (by simp [hcode])]
    refine (h.next_code hcode (.inr rfl)).bind fun p hp => (hp.skipNewlines hfuel).bind fun p hp => ?_
    have hmade := (hp.alloc { type := .CODE_INJECTION, codeText := printed astTextMax p.parserPeekText,
                              typeName := printed 64 p.parserPeekLang }).1.stands
    have hmoved : k < s.pastNewlines (k + 1) := Nat.lt_of_lt_of_le (Nat.lt_succ_self k) le_pastNewlines
    unfold astMakeCodeInjection
    revert hmade
    rcases p.astAlloc _ with ⟨_ | node, p⟩
    · exact fun hmade => ⟨hlt, _, hmoved, hmade⟩
    · exact fun hmade => ⟨hlt, _, hmoved, hmade⟩
  rw [if_neg (by simp [hcode])]
  by_cases hkey : s.type k = .META_KEY
  · rw [if_pos (by simp [hkey])]
    refine h.entry hkey (by decide) (fun p hp => ?_) fun p hp => ?_
    · exact ⟨hlt, k + 2, by omega, (hp.alloc _).1.stands⟩
    · exact ⟨hlt, k + 1, by omega, hp⟩
  · rw [if_neg (by simp [hkey])]
    refine (h.next hends hcode (fun hentry => hkey hentry.1) fun _ => by decide).bind fun p hp => ?_
    exact ⟨hlt, k + 1, by omega, hp⟩

theorem addParams_owes {c : Nat} (func : AstNode) (params : List UInt8)
    (h : s.Owes p k (c + (commaSeparated params).length) place) :
    s.Owes (p.addParams func params).2 k c place := by
  unfold addParams
  generalize commaSeparated params = parts at h
  induction parts generalizing p func with
  | nil => exact h
  | cons part parts ih => exact ih _ (h.alloc _).1

theorem functionSection_stands (h : s.Stands p k .module) (hlevel : s.level k = 2)
    (hkind : sectionKind (s.text k) = some .FUNCTION) (hfuel : s.length < fuel) :
    Ensures s.NullField (fun r => ∃ j, k < j ∧ s.Stands r.2 j .module) (p.parseFunctionSection fuel) := by
  have hplace : s.sectionPlace k = .body := by rw [sectionPlace, hkind]
  have hnodes : s.sectionNodes k = 2 + (s.params (s.pastNewlines (k + 1))).length := by rw [sectionNodes, hkind]
  have hmoved : k < s.pastNewlines (k + 1) := Nat.lt_of_lt_of_le (Nat.lt_succ_self k) le_pastNewlines
  unfold parseFunctionSection
  refine (h.next_section hlevel (by simp [hplace])).bind fun p hp => (hp.skipNewlines hfuel).bind fun p hp => ?_
  obtain ⟨_, _, _, hasked, _⟩ := hp.asked
  rw [hplace, hnodes, params, ← hasked.text] at hp
  generalize s.pastNewlines (k + 1) = j at hp hmoved
  generalize parseSignature p.parserPeekText = sig at hp
  rw [show 2 + (commaSeparated sig.params).length = 1 + (commaSeparated sig.params).length + 1 by omega] at hp
  have hmade := hp.alloc { type := .FUNCTION, line := p.line, name := printed astNameMax sig.name }
  unfold astMakeFunction
  revert hmade
  simp only
  rcases p.astAlloc _ with ⟨_ | func, p⟩
  · exact fun hmade => ⟨j, hmoved, hmade.2 rfl .module⟩
  intro hmade
  have hparams := addParams_owes (func.withFields ({ · with typeName := printed 64 sig.retType, hasType := true }))
    sig.params hmade.1
  simp only
  revert hparams
  rcases p.addParams _ _ with ⟨func, p⟩
  intro hparams
  have hblock := hparams.alloc { type := .BLOCK, line := p.line }
  unfold astMakeBlock
  revert hblock
  simp only
  rcases p.astAlloc _ with ⟨_ | body, p⟩
  · exact fun hblock => ⟨j, hmoved, hblock.2 rfl .module⟩
  intro hblock
  refine Ensures.bind (ensures_turns (I := fun t j => s.Stands t.1 j .body) (X := s.Ends) (fun t => t.1)
    (fun t j ht => ⟨_, ht.asked⟩) (fun t j ht => functionTurn_stands ht hfuel) hblock.1.stands hfuel) ?_
  rintro t ⟨i, hle, ht, hends⟩
  exact ⟨i, Nat.lt_of_lt_of_le hmoved hle, ht.asked, ht.reached.of_ends hends⟩

variable {onMeta : List UInt8 → List UInt8 → Option AstNode → Except ParseFault (Option AstNode)}
  {node : Option AstNode}

theorem bodyTurn_stands (h : s.Stands p k .body) (hnode : node ≠ none)
    (hmeta : ∀ key value node, ∃ node', onMeta key value (some node) = .ok (some node')) :
    Ensures s.NullField (fun next => next.elim (s.Ends k) fun t =>
      k < s.length ∧ ∃ j, k < j ∧ s.Stands t.1 j .body ∧ t.2.1 ≠ none) (bodyTurn onMeta (p, node, body)) := by
  unfold bodyTurn
  simp only
  by_cases hends : s.Ends k
  · rw [if_pos (h.asked.ends_iff.2 hends)]
    exact hends
  have hlt := lt_length (type_ne_of_not_ends hends)
  rw [if_neg fun hp => hends (h.asked.ends_iff.1 hp), h.asked.check, h.asked.check]
  by_cases hcode : s.type k = .CODE_BLOCK
  · rw [if_pos (by simp [hcode])]
    refine (h.next_code hcode (.inr rfl)).bind fun p hp => ?_
    exact ⟨hlt, k + 1, by omega, (hp.alloc _).1.stands, hnode⟩
  rw [if_neg (by simp [hcode])]
  by_cases hkey : s.type k = .META_KEY
  · rw [if_pos (by simp [hkey])]
    refine h.entry hkey (by decide) (fun p hp => ?_) fun p hp => ?_
    · obtain ⟨n, rfl⟩ := Option.ne_none_iff_exists'.1 hnode
      obtain ⟨n', heq⟩ := hmeta p.parserPeekText p.parserPeekText n
      rw [heq]
      exact ⟨hlt, k + 2, by omega, (hp.alloc _).1.stands, Option.some_ne_none _⟩
    · exact ⟨hlt, k + 1, by omega, hp, hnode⟩
  · rw [if_neg (by simp [hkey])]
    refine (h.next hends hcode (fun hentry => hkey hentry.1) fun _ => by decide).bind fun p hp => ?_
    exact ⟨hlt, k + 1, by omega, hp, hnode⟩

theorem pool_of_none {fields : AstFields} (h : (p.astAlloc fields).1 = none) :
    astPoolSize ≤ (p.astAlloc fields).2.pool := by
  unfold astAlloc at h ⊢
  split at h
  · cases h
  · next hfull =>
    rw [if_neg hfull]
    exact Nat.not_lt.1 hfull

/-- A node whose constructor returned `NULL` has no body either. -/
theorem parseBody_stands (h : s.Owes p k 1 .body) (hnode : node = none → astPoolSize ≤ p.pool)
    (hmeta : ∀ key value node, ∃ node', onMeta key value (some node) = .ok (some node'))
    (hfuel : s.length < fuel) :
    Ensures s.NullField (fun r => ∃ j, k ≤ j ∧ s.Stands r.2 j .module) (p.parseBody fuel onMeta node) := by
  have hblock := h.alloc { type := .BLOCK, line := p.line }
  have hsome : (p.astAlloc { type := .BLOCK, line := p.line }).1 ≠ none → node ≠ none := by
    rintro hbody rfl
    unfold astAlloc at hbody
    rw [if_neg (Nat.not_lt.2 (hnode rfl))] at hbody
    exact hbody rfl
  unfold parseBody astMakeBlock
  revert hblock hsome
  rcases p.astAlloc _ with ⟨_ | body, p⟩
  · exact fun hblock _ => ⟨k, Nat.le_refl k, hblock.2 rfl .module⟩
  intro hblock hsome
  refine Ensures.bind (ensures_turns (I := fun t j => s.Stands t.1 j .body ∧ t.2.1 ≠ none) (X := s.Ends)
    (fun t => t.1) (fun t j ht => ⟨_, ht.1.asked⟩) (fun t j ht => bodyTurn_stands ht.1 ht.2 hmeta)
    ⟨hblock.1.stands, hsome (Option.some_ne_none body)⟩ hfuel) ?_
  rintro t ⟨i, hle, ht, hends⟩
  exact ⟨i, hle, ht.1.asked, ht.1.reached.of_ends hends⟩

/-- The sections of agents and tiles: a node for the section and one for its body. -/
theorem bodySection_stands (fieldsOf : FluxParser Nat → AstFields) (h : s.Stands p k .module)
    (hlevel : s.level k = 2) (hplace : s.sectionPlace k = .body) (hnodes : s.sectionNodes k = 2)
    (hmeta : ∀ key value node, ∃ node', onMeta key value (some node) = .ok (some node'))
    (hfuel : s.length < fuel) :
    Ensures s.NullField (fun r => ∃ j, k < j ∧ s.Stands r.2 j .module) (do
      let p ← p.parserNext
      let p ← p.parserSkipNewlines fuel
      let (node, p) := p.astAlloc (fieldsOf p)
      p.parseBody fuel onMeta node) := by
  have hmoved : k < s.pastNewlines (k + 1) := Nat.lt_of_lt_of_le (Nat.lt_succ_self k) le_pastNewlines
  refine (h.next_section hlevel (by simp [hplace])).bind fun p hp => (hp.skipNewlines hfuel).bind fun p hp => ?_
  rw [hplace, hnodes] at hp
  refine (parseBody_stands (hp.alloc (fieldsOf p)).1 pool_of_none hmeta hfuel).imp ?_
  rintro r ⟨j, hle, hr⟩
  exact ⟨j, Nat.lt_of_lt_of_le hmoved hle, hr⟩

theorem agentSection_stands (h : s.Stands p k .module) (hlevel : s.level k = 2)
    (hkind : sectionKind (s.text k) = some .AGENT_OP) (hfuel : s.length < fuel) :
    Ensures s.NullField (fun r => ∃ j, k < j ∧ s.Stands r.2 j .module) (p.parseAgentSection fuel) :=
  bodySection_stands (fun p => { type := .AGENT_OP, opStr := printed 16 (bytes "agent"),
                                 name := printed astNameMax (sectionName "agent" p.parserPeekText) })
    h hlevel (by rw [sectionPlace, hkind]) (by rw [sectionNodes, hkind]) (fun _ _ node => ⟨node, rfl⟩) hfuel

theorem tileMeta_some (key value : List UInt8) (node : AstNode) :
    ∃ node', tileMeta key value (some node) = .ok (some node') := by
  unfold tileMeta
  split
  · exact ⟨_, rfl⟩
  · exact ⟨_, rfl⟩

theorem tileSection_stands (h : s.Stands p k .module) (hlevel : s.level k = 2)
    (hkind : sectionKind (s.text k) = some .TILE) (hfuel : s.length < fuel) :
    Ensures s.NullField (fun r => ∃ j, k < j ∧ s.Stands r.2 j .module) (p.parseTileSection fuel) :=
  bodySection_stands (fun p => { type := .TILE, tileCategory := printed 32 (bytes "compute"),
                                 name := printed astNameMax (sectionName "tile" p.parserPeekText) })
    h hlevel (by rw [sectionPlace, hkind]) (by rw [sectionNodes, hkind]) tileMeta_some hfuel

/-! ## Regions -/

/-- The parser got to `k`, in the body of the region with the heading `r` or at its end. -/
structure InRegion (s : TokenStream) (r k : Nat) : Prop where
  reached : ∀ j, j < k → s.type j ≠ .EOF
  clear : s.ClearUpTo k
  opens : s.OpensRegion r
  behind : r < k
  body : ∀ j, r < j → j < k → ¬ s.Ends j

namespace InRegion

theorem start (h : s.Reached r place) (hr : s.OpensRegion r) : s.InRegion r (r + 1) := by
  have hne : s.level r ≠ 0 := by simp [hr.1]
  refine ⟨h.reached_succ fun heof => hne (level_eq_zero (by simp [heof])),
    h.clear.succ_of_not_entry (not_entryAt_of_level hne), hr, Nat.lt_succ_self r, fun j hlt hle => ?_⟩
  omega

theorem placeAt_eq (h : s.InRegion r k) : s.placeAt k = .region := placeAt_of_region h.opens h.behind h.body

theorem body_le (h : s.InRegion r k) (hends : ¬ s.Ends k) (j : Nat) (hlt : r < j) (hle : j ≤ k) : ¬ s.Ends j := by
  rcases Nat.eq_or_lt_of_le hle with rfl | hlt'
  · exact hends
  · exact h.body j hlt hlt'

theorem next (h : s.InRegion r k) (hends : ¬ s.Ends k)
    (hclear : s.SetsField r k → s.requested r < astPoolSize) : s.InRegion r (k + 1) := by
  refine ⟨fun j hlt => ?_, h.clear.succ fun r' hset => ?_, h.opens, Nat.lt_succ_of_lt h.behind, fun j hlt hle => ?_⟩
  · rcases Nat.eq_or_lt_of_le (Nat.le_of_lt_succ hlt) with rfl | hlt
    · exact type_ne_of_not_ends hends
    · exact h.reached j hlt
  · obtain rfl := hset.opens_eq h.opens h.behind (h.body_le hends)
    exact hclear hset
  · exact h.body_le hends j hlt (Nat.le_of_lt_succ hle)

theorem leave (h : s.InRegion r k) (hends : s.Ends k) : s.Reached k .module := ⟨h.reached, h.clear, .inl hends⟩

theorem pastNewlines (h : s.InRegion r k) :
    s.InRegion r (s.pastNewlines k) ∧ s.requested (s.pastNewlines k) = s.requested k := by
  refine pastNewlines_induction (P := fun j => s.InRegion r j ∧ s.requested j = s.requested k)
    (fun j hnew hj => ?_) ⟨h, rfl⟩
  have hlevel : s.level j = 0 := level_eq_zero (by simp [hnew])
  refine ⟨hj.1.next (not_ends_of_level (by simp [hnew]) hlevel) fun hset => ?_, ?_⟩
  · exact absurd hset.entry (by simp [EntryAt, hnew])
  · show s.requested j + s.nodesAt j = _
    rw [nodesAt_other (by simp [hlevel]) (by simp [hnew]) (by simp [EntryAt, hnew]), Nat.add_zero, hj.2]

end InRegion

/-- The parser in the body of a region, whose node is `NULL` if the pool was used up at its heading. -/
structure StandsIn (s : TokenStream) (r : Nat) (t : FluxParser Nat × Option AstNode) (k : Nat) : Prop where
  asked : s.Asked t.1 k (s.requested k)
  region : s.InRegion r k
  node : t.2 = none ↔ astPoolSize ≤ s.requested r

theorem astAddChild_eq_none {child : Option AstNode} : astAddChild node child = none ↔ node = none := by
  cases node <;> simp [astAddChild]

theorem InRegion.setsField (h : s.InRegion r k) (hends : ¬ s.Ends k) (hentry : s.EntryAt k)
    (hkey : s.text (k + 2) = bytes "size" ∨ s.text (k + 2) = bytes "perm") : s.SetsField r k :=
  ⟨fun j hlt => h.reached j (Nat.lt_trans hlt h.behind), h.opens, h.behind, h.body_le hends, hentry, hkey⟩

/-- Only a field of a region without a node is stored through `NULL`. -/
theorem regionMeta_ensures (h : s.InRegion r k) (hends : ¬ s.Ends k) (hentry : s.EntryAt k)
    (hnode : node = none ↔ astPoolSize ≤ s.requested r) (value : List UInt8) :
    Ensures s.NullField (fun node' => (node' = none ↔ astPoolSize ≤ s.requested r) ∧
      (s.SetsField r k → s.requested r < astPoolSize)) (regionMeta (s.text (k + 2)) value node) := by
  cases node with
  | none =>
    have hfull := hnode.1 rfl
    have hfault (hkey : s.text (k + 2) = bytes "size" ∨ s.text (k + 2) = bytes "perm") :
        s.NullField .nullNode :=
      ⟨rfl, fun hall => absurd (hall r k (h.setsField hends hentry hkey)) (Nat.not_lt.2 hfull)⟩
    unfold regionMeta
    split_ifs with hsize hperm
    · exact hfault (.inl hsize)
    · exact hfault (.inr hperm)
    · exact ⟨hnode, fun hset => absurd hset.key (not_or.2 ⟨hsize, hperm⟩)⟩
  | some region =>
    have hroom : s.requested r < astPoolSize := Nat.not_le.1 fun hfull => Option.some_ne_none _ (hnode.2 hfull)
    have hkept (region : AstNode) : (some region = none ↔ astPoolSize ≤ s.requested r) ∧
        (s.SetsField r k → s.requested r < astPoolSize) :=
      ⟨iff_of_false (Option.some_ne_none _) (Nat.not_le.2 hroom), fun _ => hroom⟩
    unfold regionMeta
    split_ifs
    · exact hkept _
    · exact hkept _
    · exact hkept _

theorem regionTurn_stands {t : FluxParser Nat × Option AstNode} (h : s.StandsIn r t k) :
    Ensures s.NullField (fun next => next.elim (s.Ends k) fun t' => k < s.length ∧ ∃ j, k < j ∧ s.StandsIn r t' j)
      (regionTurn t) := by
  obtain ⟨p, node⟩ := t
  have hplace := h.region.placeAt_eq
  unfold regionTurn
  simp only
  by_cases hends : s.Ends k
  · rw [if_pos (h.asked.ends_iff.2 hends)]
    exact hends
  have hlt := lt_length (type_ne_of_not_ends hends)
  have hlevel : s.level k ≠ 2 := fun h => hends (.inr (.inr h))
  -- behind a token that is no entry nothing was asked for
  have hplain {q : FluxParser Nat} (hentry : ¬ s.EntryAt k) (hq : s.Asked q (k + 1) (s.requested k)) :
      s.StandsIn r (q, node) (k + 1) := by
    refine ⟨?_, h.region.next hends fun hset => absurd hset.entry hentry, h.node⟩
    have hnone : s.nodesAt k = 0 := by simp [nodesAt, hlevel, hentry, hplace]
    show s.Asked q (k + 1) (s.requested k + s.nodesAt k)
    rw [hnone]
    exact hq
  rw [if_neg fun hp => hends (h.asked.ends_iff.1 hp), h.asked.check]
  by_cases hkey : s.type k = .META_KEY
  · rw [if_pos (by simp [hkey])]
    refine h.asked.next.bind fun p hp => ?_
    rw [hp.check]
    by_cases hvalue : s.type (k + 1) = .META_VALUE
    · rw [if_pos (by simp [hvalue])]
      have hentry : s.EntryAt k := ⟨hkey, hvalue⟩
      refine hp.next.bind fun p hp => ?_
      rw [hp.text]
      refine (regionMeta_ensures h.region hends hentry h.node _).bind fun node' hnode => ?_
      have hzero : s.level (k + 1) = 0 := level_eq_zero (by simp [hvalue])
      have hin := h.region.next hends hnode.2
      have hin' := hin.next (not_ends_of_level (by simp [hvalue]) hzero)
        fun hset => absurd hset.entry (by simp [EntryAt, hvalue])
      refine ⟨hlt, k + 2, by omega, ?_, hin', astAddChild_eq_none.trans hnode.1⟩
      have hrequested : s.requested (k + 2) = s.requested k + 1 := by
        show s.requested k + s.nodesAt k + s.nodesAt (k + 1) = _
        rw [nodesAt_entry hentry (by simp [hplace]),
          nodesAt_other (by simp [hzero]) (by simp [hvalue]) (by simp [EntryAt, hvalue])]
      rw [hrequested]
      exact (hp.alloc _).asked
    · rw [if_neg (by simp [hvalue])]
      exact ⟨hlt, k + 1, by omega, hplain (fun hentry => hvalue hentry.2) hp⟩
  · rw [if_neg (by simp [hkey])]
    refine h.asked.next.bind fun p hp => ?_
    exact ⟨hlt, k + 1, by omega, hplain (fun hentry => hkey hentry.1) hp⟩

theorem regionSection_stands (h : s.Stands p k .module) (hopens : s.OpensRegion k) (hfuel : s.length < fuel) :
    Ensures s.NullField (fun r => ∃ j, k < j ∧ s.Stands r.2 j .module) (p.parseRegionSection fuel) := by
  have hmoved : k < s.pastNewlines (k + 1) := Nat.lt_of_lt_of_le (Nat.lt_succ_self k) le_pastNewlines
  obtain ⟨hregion, hrequested⟩ := (InRegion.start h.reached hopens).pastNewlines
  have hnodes : s.requested (s.pastNewlines (k + 1)) = s.requested k + 1 := by
    rw [hrequested]
    show s.requested k + s.nodesAt k = _
    rw [nodesAt, if_pos hopens.1, sectionNodes, hopens.2]
  unfold parseRegionSection
  refine h.asked.next.bind fun p hp => (hp.skipNewlines hfuel).bind fun p hp => ?_
  have hmade := hp.alloc { type := .REGION, name := printed astNameMax (sectionName "region" p.parserPeekText),
                           regionSize := 4096, regionPerm := printed 16 (bytes "rw") }
  refine Ensures.bind (ensures_turns (I := s.StandsIn k) (X := s.Ends) (fun t => t.1)
    (fun t j ht => ⟨_, ht.asked⟩) (fun t j ht => regionTurn_stands ht)
    ⟨hnodes ▸ hmade.asked, hregion, hmade.none_iff⟩ hfuel) ?_
  rintro t ⟨i, hle, ht, hends⟩
  exact ⟨i, Nat.lt_of_lt_of_le hmoved hle, ht.asked, ht.region.leave hends⟩

/-! ## Sections and documents -/

theorem leafSection_stands (fieldsOf : FluxParser Nat → AstFields) (h : s.Stands p k .module)
    (hlevel : s.level k = 2) (hplace : s.sectionPlace k = .module) (hnodes : s.sectionNodes k = 1) :
    Ensures s.NullField (fun r => ∃ j, k < j ∧ s.Stands r.2 j .module) (do
      let p ← p.parserNext
      pure (p.astAlloc (fieldsOf p))) := by
  refine (h.next_section hlevel (by simp [hplace])).bind fun p hp => ?_
  rw [hplace, hnodes] at hp
  exact ⟨k + 1, Nat.lt_succ_self k, (hp.alloc (fieldsOf p)).1.stands⟩

theorem parseSection_stands (h : s.Stands p k .module) (hlevel : s.level k = 2) (hfuel : s.length < fuel) :
    Ensures s.NullField (fun r => ∃ j, k < j ∧ s.Stands r.2 j .module) (p.parseSection fuel) := by
  unfold parseSection
  rw [h.asked.text]
  split
  · next hkind => exact functionSection_stands h hlevel hkind hfuel
  · next hkind => exact agentSection_stands h hlevel hkind hfuel
  · next hkind => exact tileSection_stands h hlevel hkind hfuel
  · next hkind => exact regionSection_stands h ⟨hlevel, hkind⟩ hfuel
  · next hkind =>
    exact leafSection_stands
      (fun p => { type := .IMPORT, importPath := printed 256 (sectionName "import" p.parserPeekText) })
      h hlevel (by rw [sectionPlace, hkind]) (by rw [sectionNodes, hkind])
  · next hkind =>
    exact leafSection_stands
      (fun p => { type := .EXPORT, name := printed astNameMax (sectionName "export" p.parserPeekText) })
      h hlevel (by rw [sectionPlace, hkind]) (by rw [sectionNodes, hkind])
  · next hfunction hagent htile hregion himport hexport =>
    have hplace : s.sectionPlace k = .skipped := by
      unfold sectionPlace
      split <;> first | contradiction | rfl
    have hnodes : s.sectionNodes k = 0 := by
      unfold sectionNodes
      split <;> first | contradiction | rfl
    refine (h.next_section hlevel (by simp [hplace])).bind fun p hp => ?_
    rw [hplace, hnodes] at hp
    refine (hp.stands.skipToSection hfuel).bind fun p hp => ?_
    obtain ⟨j, hle, hj⟩ := hp
    exact ⟨j, hle, hj⟩

theorem moduleTurn_stands {module : AstNode} (h : s.Stands p k .module) (hfuel : s.length < fuel) :
    Ensures s.NullField (fun next => next.elim (s.type k = .EOF) fun t =>
      k < s.length ∧ ∃ j, k < j ∧ s.Stands t.1 j .module) (moduleTurn fuel (p, module)) := by
  unfold moduleTurn
  simp only
  rw [h.asked.check]
  by_cases heof : s.type k = .EOF
  · rw [if_pos (by simp [heof])]
    exact heof
  rw [if_neg (by simp [heof])]
  have hlt := lt_length heof
  refine (h.owes.skipNewlines hfuel).bind fun p hp => ?_
  have hp := hp.stands
  have hle : k ≤ s.pastNewlines k := le_pastNewlines
  -- a turn that goes on behind the newlines makes progress
  have hgo {q : FluxParser Nat} {i : Nat} (hi : s.pastNewlines k < i) (hq : s.Stands q i .module) :
      k < s.length ∧ ∃ j, k < j ∧ s.Stands q j .module :=
    ⟨hlt, i, Nat.lt_of_le_of_lt hle hi, hq⟩
  generalize s.pastNewlines k = j at hp hle hgo
  rw [hp.asked.check, hp.asked.check, hp.asked.check, hp.asked.headingLevel]
  by_cases heof' : s.type j = .EOF
  · rw [if_pos (by simp [heof'])]
    refine ⟨hlt, j, Nat.lt_of_le_of_ne hle ?_, hp⟩
    rintro rfl
    exact heof heof'
  rw [if_neg (by simp [heof'])]
  by_cases htop : s.level j = 1
  · rw [if_pos htop]
    refine hp.asked.next.bind fun q hq => hgo (Nat.lt_succ_self j) ⟨?_, hp.reached.next_module htop⟩
    have hentry : ¬ s.EntryAt j := not_entryAt_of_level (by simp [htop])
    have hcode : s.type j ≠ .CODE_BLOCK := fun hcode => by simp [level_eq_zero, hcode] at htop
    have hnone := nodesAt_other (s := s) (k := j) (by simp [htop]) hcode hentry
    show s.Asked q (j + 1) (s.requested j + s.nodesAt j)
    rw [hnone]
    exact hq
  rw [if_neg htop]
  by_cases hsection : s.level j = 2
  · rw [if_pos hsection]
    refine (parseSection_stands hp hsection hfuel).bind ?_
    rintro ⟨node, q⟩ ⟨i, hi, hq⟩
    exact hgo hi hq
  rw [if_neg hsection]
  have hends : ¬ s.Ends j := not_or.2 ⟨heof', not_or.2 ⟨htop, hsection⟩⟩
  by_cases hdeep : 3 ≤ s.level j
  · rw [if_pos hdeep]
    have hne : s.level j ≠ 0 := fun hzero => by simp [hzero] at hdeep
    have hcode : s.type j ≠ .CODE_BLOCK := fun hcode => hne (level_eq_zero (by simp [hcode]))
    have hnone := nodesAt_other hsection hcode (not_entryAt_of_level hne)
    refine hp.asked.next.bind fun q hq => ?_
    have hq : s.Stands q (j + 1) .skipped := by
      refine ⟨?_, hp.reached.next_skipped hends hdeep⟩
      show s.Asked q (j + 1) (s.requested j + s.nodesAt j)
      rw [hnone]
      exact hq
    refine (hq.skipToSection hfuel).bind fun q hq => ?_
    obtain ⟨i, hi, hq⟩ := hq
    exact hgo hi hq
  rw [if_neg hdeep]
  by_cases hcode : s.type j = .CODE_BLOCK
  · rw [if_pos (by simp [hcode])]
    refine (hp.next_code hcode (.inl rfl)).bind fun q hq => ?_
    exact hgo (Nat.lt_succ_self j) (hq.alloc _).1.stands
  rw [if_neg (by simp [hcode])]
  by_cases hkey : s.type j = .META_KEY
  · rw [if_pos (by simp [hkey])]
    refine hp.entry hkey (by decide) (fun q hq => ?_) fun q hq => ?_
    · exact hgo (by omega) (hq.alloc _).1.stands
    · exact hgo (Nat.lt_succ_self j) hq
  · rw [if_neg (by simp [hkey])]
    refine (hp.next hends hcode (fun hentry => hkey hentry.1) fun h => absurd h hdeep).bind fun q hq => ?_
    exact hgo (Nat.lt_succ_self j) hq

/-- The module of a document: the parser ends at a `TOK_EOF`, with all regions behind it. -/
theorem parseModule_ensures (hp : s.Asked p k 0) (hk : s.Reached k .module) (hone : s.requested k = 1)
    (name : List UInt8) (hfuel : s.length < fuel) :
    Ensures s.NullField (fun _ => s.FieldsHaveNodes) (p.parseModule fuel name) := by
  have hmade := hp.alloc { type := .MODULE, line := p.line, name := printed astNameMax name }
  unfold parseModule astMakeModule
  revert hmade
  rcases p.astAlloc _ with ⟨_ | module, p⟩
  · exact fun hmade => absurd (hmade.none_iff.1 rfl) (by decide)
  intro hmade
  have hstands : s.Stands p k .module := ⟨hone ▸ hmade.asked, hk⟩
  refine Ensures.bind (ensures_turns (I := fun t j => s.Stands t.1 j .module) (X := fun j => s.type j = .EOF)
    (fun t => t.1) (fun t j ht => ⟨_, ht.asked⟩) (fun t j ht => moduleTurn_stands ht hfuel) hstands hfuel) ?_
  rintro t ⟨i, -, ht, heof⟩ r j hset
  apply ht.reached.clear r j hset
  exact Nat.lt_of_not_le fun hle => hset.type_ne hle heof

theorem reached_zero : s.Reached 0 .module :=
  ⟨fun _ h => absurd h (Nat.not_lt_zero _), fun _ _ _ h => absurd h (Nat.not_lt_zero _),
    .inr ⟨by simp [placeAt], fun _ => rfl⟩⟩

/-- The parse ends, and the only fault is a field of a region that has no node. -/
theorem fluxParserParse_ensures (s : TokenStream) (buffer : FluxToken) (hfuel : s.length < fuel) :
    Ensures s.NullField (fun _ => s.FieldsHaveNodes) ((s.parser buffer).fluxParserParse fuel) := by
  have hnext : Ensures s.NullField (fun q => s.Asked q 0 0)
      (FluxParser.parserNext { s.parser buffer with pool := 0, numErrors := 0 }) := ⟨rfl, rfl, rfl⟩
  refine hnext.bind fun p hp => ?_
  refine Ensures.bind (R := fun r => ∃ k, s.Asked r.2 k 0 ∧ s.Reached k .module ∧ s.requested k = 1) ?_ ?_
  · unfold parseModuleHeading
    rw [hp.headingLevel]
    by_cases htop : s.level 0 = 1
    · rw [if_pos htop]
      obtain ⟨hreached, hrequested⟩ := (reached_zero.next_module htop).pastNewlines
      refine hp.next.bind fun p hp => (hp.skipNewlines hfuel).bind fun p hp => ⟨_, hp, hreached, ?_⟩
      have hcode : s.type 0 ≠ .CODE_BLOCK := fun hcode => by simp [level_eq_zero, hcode] at htop
      rw [hrequested]
      show 1 + s.nodesAt 0 = 1
      rw [nodesAt_other (by simp [htop]) hcode (not_entryAt_of_level (by simp [htop]))]
    · rw [if_neg htop]
      exact ⟨0, hp, reached_zero, rfl⟩
  · rintro ⟨name, p⟩ ⟨k, hp, hk, hone⟩
    exact parseModule_ensures hp hk hone name hfuel

/-! ## Termination and safety -/

/-- The parse of the stream ends, and no node is used that is `NULL`. -/
def ParsesSafely (s : TokenStream) (buffer : FluxToken) : Prop :=
  ∃ n, ∀ fuel, n ≤ fuel → ∃ r, (s.parser buffer).fluxParserParse fuel = .ok r

theorem parsesSafely_iff (s : TokenStream) (buffer : FluxToken) : s.ParsesSafely buffer ↔ s.FieldsHaveNodes := by
  constructor
  · rintro ⟨n, hn⟩
    obtain ⟨r, hr⟩ := hn (max n (s.length + 1)) (Nat.le_max_left _ _)
    exact (fluxParserParse_ensures s buffer (Nat.le_max_right n (s.length + 1))).of_ok hr
  · intro h
    refine ⟨s.length + 1, fun fuel hfuel => ?_⟩
    have hensures := fluxParserParse_ensures s buffer hfuel
    cases hparse : (s.parser buffer).fluxParserParse fuel with
    | ok r => exact ⟨r, rfl⟩
    | error fault => exact absurd h (hensures.of_error hparse).2

/-- 4095 code blocks, which use up the pool with the module, and a region with an entry in front of the word
`size`. -/
def fullPool : TokenStream where
  token k :=
    if k < 4095 then { fluxTokenInit with type := .CODE_BLOCK }
    else if k = 4095 then { fluxTokenInit with type := .HEADING, headingLevel := 2, text := bytes "region: heap" }
    else if k = 4096 then { fluxTokenInit with type := .META_KEY, text := bytes "perm" }
    else if k = 4097 then { fluxTokenInit with type := .META_VALUE, text := bytes "r" }
    else if k = 4098 then { fluxTokenInit with type := .IDENTIFIER, text := bytes "size" }
    else fluxTokenInit
  line _ := 1
  length := 4099
  eof k hk := by
    rw [if_neg (by omega), if_neg (by omega), if_neg (by omega), if_neg (by omega), if_neg (by omega)]
    rfl

theorem fullPool_code (hk : k < 4095) : fullPool.type k = .CODE_BLOCK := by
  show (if _ then _ else _ : FluxToken).type = _
  rw [if_pos hk]

theorem fullPool_requested (hk : k ≤ 4095) : fullPool.placeAt k = .module ∧ fullPool.requested k = k + 1 := by
  induction k with
  | zero => exact ⟨rfl, rfl⟩
  | succ k ih =>
    obtain ⟨hplace, hrequested⟩ := ih (Nat.le_of_succ_le hk)
    have hcode := fullPool_code hk
    have hzero : fullPool.level k = 0 := level_eq_zero (by simp [hcode])
    refine ⟨(placeAt_succ_of_zero hzero).trans hplace, ?_⟩
    show fullPool.requested k + fullPool.nodesAt k = _
    rw [hrequested, nodesAt_code hcode (.inl hplace)]

/-- The size of the region is stored through `NULL`. -/
theorem fullPool_not_parsesSafely : ¬ fullPool.ParsesSafely fluxTokenInit := by
  rintro ⟨n, hn⟩
  obtain ⟨r, hr⟩ := hn (max n 4100) (Nat.le_max_left _ _)
  have hall := (fluxParserParse_ensures fullPool fluxTokenInit (Nat.le_max_right n 4100)).of_ok hr
  have hset : fullPool.SetsField 4095 4096 := by
    refine ⟨fun j hj => by simp [fullPool_code hj], ⟨by decide, by decide⟩, by decide, fun j hj hle => ?_,
      by decide, .inl (by decide)⟩
    obtain rfl : j = 4096 := by omega
    decide
  have hlt := hall 4095 4096 hset
  rw [(fullPool_requested (Nat.le_refl 4095)).2] at hlt
  exact absurd hlt (by decide)

end TokenStream

end FluxOs
